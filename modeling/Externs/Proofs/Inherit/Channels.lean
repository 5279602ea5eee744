import Externs.Proofs.Inherit.Overrides

/-!
# The channels to children

The children of a declaration come by three channels: its exports, its members, and what its type
gives it if it is a value of a class or interface. Each child is met once, at its first place. The
type gives what is public of all that it offers, own and inherited. Accessibility counts only after
overrides have shadowed their bases, so a private override takes the key away from the public member
that it shadows, and gives nothing in its place.

* `Graph.ValueOf`: a value of a class or interface.
* `Graph.Gives`: what the type of a value gives it under a key.
* `Graph.mem_typed_iff`: the third channel has just this.
* `Graph.Discovery`, `Graph.discovery`: the children of every declaration.
-/

namespace Externs

theorem Flags.kind_eq_value_iff {fs : Flags} : fs.kind = .value ↔ fs.has .varDecl = true ∨ fs.has .property = true := by
  rw [← Bool.or_eq_true, ← isValue, kind]
  constructor
  · intro h
    by_contra hvalue
    rw [if_neg hvalue] at h
    split at h <;> cases h
  · exact fun h => if_pos h

namespace Graph

variable {g : Graph} {d e c : Id} {t : TypeRef} {key : String}

/-- `d` is a value, and its declared type `t`, read through one array, denotes the class or interface `e`. -/
structure ValueOf (g : Graph) (d : Id) (t : TypeRef) (e : Id) : Prop where
  value : (g.decl d).flags.has .varDecl = true ∨ (g.decl d).flags.has .property = true
  declared : ∃ u, (g.decl d).typeRef = some u ∧ u.unwrapped = some t
  denotes : g.resolve t = some e
  structured : g.isStructured e = true

/-- The class or interface `e`, or one that it extends, has the public member `c` under `key`, and no other
type that `e` extends has a member under that key and comes before it. -/
def Gives (g : Graph) (e : Id) (key : String) (c : Id) : Prop :=
  (g.decl c).accessibility = .publicAccess ∧
    ∃ b, g.Extends e b ∧ (g.decl b).members.find? key = some c ∧ g.Settles e b key

theorem ValueOf.target (h : g.ValueOf d t e) : g.structuredTarget t = some e :=
  structuredTarget_eq_some_iff.2 ⟨h.denotes, h.structured⟩

theorem ValueOf.declaredType (h : g.ValueOf d t e) : g.declaredType d = some t :=
  Option.bind_eq_some_iff.2 h.declared

/-- A value has one type at most. -/
theorem ValueOf.unique {t' : TypeRef} {e' : Id} (h : g.ValueOf d t e) (h' : g.ValueOf d t' e') : t = t' ∧ e = e' := by
  obtain rfl : t = t' := Option.some.inj (h.declaredType.symm.trans h'.declaredType)
  exact ⟨rfl, Option.some.inj (h.denotes.symm.trans h'.denotes)⟩

/-- What a value of a class or interface has by its type. -/
theorem ValueOf.typed_eq (h : g.ValueOf d t e) :
    g.typed d = (g.properties t).filter fun p => (g.decl p).accessibility = .publicAccess := by
  rw [typed, if_pos (Flags.kind_eq_value_iff.2 h.value), h.declaredType]

/-- What has something by its type is a value of a class or interface. -/
theorem exists_valueOf_of_mem_typed (hc : c ∈ g.typed d) : ∃ t e, g.ValueOf d t e := by
  obtain ⟨_, ⟨hkind, t, e, ht, he, -⟩, -⟩ := typedBy_of_mem_typed hc
  obtain ⟨hdenotes, hstructured⟩ := structuredTarget_eq_some_iff.1 he
  exact ⟨t, e, Flags.kind_eq_value_iff.1 hkind, Option.bind_eq_some_iff.1 ht, hdenotes, hstructured⟩

theorem ValueOf.mem_typed_iff (h : g.ValueOf d t e) : c ∈ g.typed d ↔ ∃ key, g.Gives e key c := by
  rw [h.typed_eq, List.mem_filter, decide_eq_true_eq, mem_properties_iff, and_comm, ← exists_and_left]
  exact exists_congr fun key => and_congr_right fun _ => find?_offering_eq_some_iff h.target

/-- **The third channel has what the type of the value gives it.** -/
theorem mem_typed_iff : c ∈ g.typed d ↔ ∃ t e key, g.ValueOf d t e ∧ g.Gives e key c := by
  constructor
  · intro hc
    obtain ⟨t, e, h⟩ := exists_valueOf_of_mem_typed hc
    obtain ⟨key, hkey⟩ := h.mem_typed_iff.1 hc
    exact ⟨t, e, key, h, hkey⟩
  · rintro ⟨t, e, key, h, hkey⟩
    exact h.mem_typed_iff.2 ⟨key, hkey⟩

/-- **One member settles a key.** -/
theorem Gives.eq_of_settles {b p : Id} (h : g.Gives e key c) (he : g.structuredTarget t = some e)
    (hb : g.Extends e b) (hp : (g.decl b).members.find? key = some p) (hs : g.Settles e b key) : c = p := by
  have hc := (find?_offering_eq_some_iff he).2 h.2
  have hp := (find?_offering_eq_some_iff he).2 ⟨b, hb, hp, hs⟩
  exact Option.some.inj (hc.symm.trans hp)

/-- The members of a type itself settle their keys. -/
theorem ValueOf.settles_self (h : g.ValueOf d t e) (key : String) : g.Settles e e key := by
  intro b _ _ hbe
  refine precedes_of_mem_generations (n := 1) (lt_size_of_target h.target) ?_ ?_ <;>
    rw [generations_one, List.mem_singleton]
  exact hbe

/-- The channels come one after the other, and what came before is passed over. -/
theorem children_eq_append (g : Graph) (d : Id) : g.children d =
    firsts [] (g.decl d).exports.ids ++ firsts (g.decl d).exports.ids (g.decl d).members.ids ++
      firsts ((g.decl d).exports.ids ++ (g.decl d).members.ids) (g.typed d) := by
  rw [children, ← firsts_eq_eraseDups, firsts_append, firsts_append, List.append_nil, List.append_nil]

/-- The children of a declaration. -/
structure Discovery (g : Graph) (d : Id) : Prop where
  once : (g.children d).Nodup
  /-- Its exports come first, then its members, then what its type gives it, each at its first place. -/
  order : g.children d =
    firsts [] (g.decl d).exports.ids ++ firsts (g.decl d).exports.ids (g.decl d).members.ids ++
      firsts ((g.decl d).exports.ids ++ (g.decl d).members.ids) (g.typed d)
  elements : ∀ c, c ∈ g.children d ↔ c ∈ (g.decl d).exports.ids ∨ c ∈ (g.decl d).members.ids ∨
    ∃ t e key, g.ValueOf d t e ∧ g.Gives e key c
  /-- The type of a value gives the public ones of what it offers, in the order in which it offers them, -/
  typed : ∀ t e, g.ValueOf d t e →
    g.typed d = (g.properties t).filter fun p => (g.decl p).accessibility = .publicAccess
  /-- and what is no value of a class or interface has no third channel. -/
  untyped : (∀ t e, ¬g.ValueOf d t e) → g.typed d = []
  /-- What is not public is a child only where it is an export or a member. -/
  hidden : ∀ c ∈ g.children d, (g.decl c).accessibility ≠ .publicAccess →
    c ∈ (g.decl d).exports.ids ∨ c ∈ (g.decl d).members.ids
  /-- Where a member that is not public settles a key, the type gives nothing under it: neither the member, -/
  shadowed : ∀ t e b key p, g.ValueOf d t e → g.Extends e b → (g.decl b).members.find? key = some p →
    g.Settles e b key → (g.decl p).accessibility ≠ .publicAccess → p ∉ g.typed d ∧ ∀ q, ¬g.Gives e key q
  /-- nor any that it shadows, unless that stands under another key as well. -/
  withheld : ∀ t e b key p, g.ValueOf d t e → g.Extends e b → (g.decl b).members.find? key = some p →
    g.Settles e b key → (g.decl p).accessibility ≠ .publicAccess →
    ∀ q, (∀ b' key', g.Extends e b' → (g.decl b').members.find? key' = some q → key' = key) → q ∉ g.typed d
  /-- So a member of the type itself that is not public hides all that the type inherits under its key. -/
  overridden : ∀ t e key p, g.ValueOf d t e → (g.decl e).members.find? key = some p →
    (g.decl p).accessibility ≠ .publicAccess → ∀ q, ¬g.Gives e key q

/-- **The children of a declaration are its three channels in order, each child once.** -/
theorem discovery (g : Graph) (d : Id) : g.Discovery d := by
  have hshadowed : ∀ t e b key p, g.ValueOf d t e → g.Extends e b → (g.decl b).members.find? key = some p →
      g.Settles e b key → (g.decl p).accessibility ≠ .publicAccess → ∀ q, ¬g.Gives e key q := by
    intro t e b key p h hb hp hs hprivate q hq
    cases hq.eq_of_settles h.target hb hp hs
    exact hprivate hq.1
  constructor
  case once => exact g.nodup_children d
  case order => exact g.children_eq_append d
  case elements =>
    intro c
    rw [mem_children_iff, Holds, or_assoc, mem_typed_iff]
  case typed => exact fun t e h => h.typed_eq
  case untyped =>
    intro hnone
    refine List.eq_nil_iff_forall_not_mem.2 fun c hc => ?_
    obtain ⟨t, e, h⟩ := exists_valueOf_of_mem_typed hc
    exact hnone t e h
  case hidden =>
    intro c hc hprivate
    refine (mem_children_iff.1 hc).resolve_right fun htyped => ?_
    obtain ⟨_, _, _, -, hpublic, -⟩ := mem_typed_iff.1 htyped
    exact hprivate hpublic
  case shadowed =>
    intro t e b key p h hb hp hs hprivate
    refine ⟨fun htyped => ?_, hshadowed t e b key p h hb hp hs hprivate⟩
    obtain ⟨_, _, _, -, hpublic, -⟩ := mem_typed_iff.1 htyped
    exact hprivate hpublic
  case withheld =>
    intro t e b key p h hb hp hs hprivate q honly htyped
    obtain ⟨key', hpublic, b', hb', hq, hs'⟩ := h.mem_typed_iff.1 htyped
    cases honly b' key' hb' hq
    exact hshadowed t e b key p h hb hp hs hprivate q ⟨hpublic, b', hb', hq, hs'⟩
  case overridden =>
    exact fun t e key p h hp hprivate => hshadowed t e e key p h .refl hp (h.settles_self key) hprivate

end Graph

end Externs
