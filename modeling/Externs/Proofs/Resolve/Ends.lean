import Externs.Decl.Children
import Externs.Proofs.Resolve.Alias

/-!
# Every search for a name ends

A search goes down a path, and from an alias on to another path in another scope, so neither the
path nor the scope gets smaller. What gets smaller is the number of aliases that are not replaced
yet: a search replaces each of them once at most, whatever cycles there are of aliases, exports or
heritage. The relations here follow a search step by step and keep a trail of what it replaces.

* `Trail`: the aliases that a search replaces, and how deep they are inside each other.
* `Resolves`: the search for what a reference denotes.
* `Offers`, `Discovers`: all searches that are made for the properties of a type, and for the
  children of a declaration.
* `Trail.Bounded`: no alias is replaced twice.
* `ParentsEnd.searchesEnd`: all these searches end, and have bounded trails.
-/

namespace Externs

/-- The aliases that a search replaces, in order, and how deep they are inside each other. -/
structure Trail where
  aliases : List Id
  depth : ℕ

namespace Trail

/-- No alias is replaced. -/
def idle : Trail := ⟨[], 0⟩

/-- What is replaced while the alias `d` is. -/
def under (d : Id) (t : Trail) : Trail := ⟨d :: t.aliases, t.depth + 1⟩

/-- Two searches, one after the other. -/
def andThen (t t' : Trail) : Trail := ⟨t.aliases ++ t'.aliases, max t.depth t'.depth⟩

end Trail

namespace Graph

variable {g : Graph}

def aliases (g : Graph) : Finset Id := {d ∈ Finset.range g.size | (g.decl d).importTarget.isSome}

/-- The look-up of a name, scope by scope outwards. -/
inductive LooksUp (g : Graph) (name : String) : Option Id → Option Id → Prop
  | file : LooksUp g name none (g.roots.find? name)
  | here {m d : Id} (h : (g.localsOf (some m)).find? name = some d) : LooksUp g name (some m) (some d)
  | outer {m : Id} {r : Option Id} (h : (g.localsOf (some m)).find? name = none)
      (ho : LooksUp g name (g.decl m).parent r) : LooksUp g name (some m) r

/-- `g.Searches seen d path trail r`: with the aliases `seen` replaced already, the search from `d`
down `path` ends with `r`. -/
inductive Searches (g : Graph) : List Id → Id → List String → Trail → Option Id → Prop
  | plain {seen : List Id} {d : Id} (h : (g.decl d).importTarget = none) :
      Searches g seen d [] .idle (some d)
  | again {seen : List Id} {d : Id} {t : TypeRef} (h : (g.decl d).importTarget = some t) (hd : d ∈ seen) :
      Searches g seen d [] .idle none
  /-- The head of the target is not in sight. -/
  | missing {seen : List Id} {d : Id} {t : TypeRef} {head : String} {path : List String}
      (h : (g.decl d).importTarget = some t) (hd : d ∉ seen) (hseg : segments (t.name?.getD "") = head :: path)
      (hx : g.LooksUp head t.scope? none) : Searches g seen d [] (.under d .idle) none
  | through {seen : List Id} {d : Id} {t : TypeRef} {head : String} {path : List String} {x : Id}
      {trail : Trail} {r : Option Id} (h : (g.decl d).importTarget = some t) (hd : d ∉ seen)
      (hseg : segments (t.name?.getD "") = head :: path) (hx : g.LooksUp head t.scope? (some x))
      (hl : Searches g (d :: seen) x path trail r) : Searches g seen d [] (trail.under d) r
  | stop {seen : List Id} {d : Id} {segment : String} {path : List String} {trail : Trail}
      (h : Searches g seen d [] trail none) : Searches g seen d (segment :: path) trail none
  | unexported {seen : List Id} {d : Id} {segment : String} {path : List String} {trail : Trail} {p : Id}
      (h : Searches g seen d [] trail (some p)) (hs : (g.decl p).exports.find? segment = none) :
      Searches g seen d (segment :: path) trail none
  /-- What is replaced for one segment counts as replaced for the next ones. -/
  | down {seen : List Id} {d : Id} {segment : String} {path : List String} {trail trail' : Trail}
      {p next : Id} {r : Option Id} (h : Searches g seen d [] trail (some p))
      (hs : (g.decl p).exports.find? segment = some next)
      (hn : Searches g (trail.aliases.reverse ++ seen) next path trail' r) :
      Searches g seen d (segment :: path) (trail.andThen trail') r

/-- The search for what a reference denotes. It starts with no alias replaced. -/
inductive Resolves (g : Graph) (t : TypeRef) : Trail → Option Id → Prop
  | nameless (h : ∀ head path, ¬Spelled t head path) : Resolves g t .idle none
  | missing {head : String} {path : List String} (h : Spelled t head path)
      (hx : g.LooksUp head t.scope? none) : Resolves g t .idle none
  | found {head : String} {path : List String} {x : Id} {trail : Trail} {r : Option Id}
      (h : Spelled t head path) (hx : g.LooksUp head t.scope? (some x))
      (hl : g.Searches [] x path trail r) : Resolves g t trail r

/-- References are resolved one by one, each by a search of its own; the classes and interfaces among what
is found are kept. -/
inductive Targets (g : Graph) : List TypeRef → List Trail → List Id → Prop
  | nil : Targets g [] [] []
  | cons {t : TypeRef} {ts : List TypeRef} {trail : Trail} {trails : List Trail} {r : Option Id} {ds : List Id}
      (h : g.Resolves t trail r) (hs : Targets g ts trails ds) :
      Targets g (t :: ts) (trail :: trails) ((r.filter g.isStructured).toList ++ ds)

/-- `g.Gathers pending seen acc trails table`: members are gathered from the types in `pending` on. -/
inductive Gathers (g : Graph) : List Id → List Id → Table → List Trail → Table → Prop
  | done {seen : List Id} {acc : Table} : Gathers g [] seen acc [] acc
  | seen {d : Id} {rest seen : List Id} {acc table : Table} {trails : List Trail} (hd : d ∈ seen)
      (h : Gathers g rest seen acc trails table) : Gathers g (d :: rest) seen acc trails table
  | fresh {d : Id} {rest seen ds : List Id} {acc table : Table} {trails trails' : List Trail} (hd : d ∉ seen)
      (hb : g.Targets (g.decl d).heritage trails ds)
      (h : Gathers g (rest ++ ds) (d :: seen) (acc.insertAll (g.decl d).members.entries) trails' table) :
      Gathers g (d :: rest) seen acc (trails ++ trails') table

/-- The search for what a reference offers. -/
inductive Offers (g : Graph) (t : TypeRef) : List Trail → List Id → Prop
  | nothing {trail : Trail} {r : Option Id} (h : g.Resolves t trail r) (hr : r.filter g.isStructured = none) :
      Offers g t [trail] []
  | members {trail : Trail} {trails : List Trail} {r : Option Id} {d : Id} {table : Table}
      (h : g.Resolves t trail r) (hr : r.filter g.isStructured = some d)
      (hs : g.Gathers [d] [] .empty trails table) : Offers g t (trail :: trails) table.ids

/-- The search for the children of a declaration. The type of a value is resolved first to see whether it
is a class or interface, and then once more for its properties. -/
inductive Discovers (g : Graph) (d : Id) : List Trail → List Id → Prop
  | untyped (h : ∀ t, (g.decl d).flags.kind = .value → g.declaredType d ≠ some t) :
      Discovers g d [] ((g.decl d).exports.ids ++ (g.decl d).members.ids).eraseDups
  | unstructured {t : TypeRef} {trail : Trail} {r : Option Id} (hv : (g.decl d).flags.kind = .value)
      (ht : g.declaredType d = some t) (h : g.Resolves t trail r) (hr : r.filter g.isStructured = none) :
      Discovers g d [trail] ((g.decl d).exports.ids ++ (g.decl d).members.ids).eraseDups
  | structured {t : TypeRef} {trail : Trail} {trails : List Trail} {r : Option Id} {e : Id} {ps : List Id}
      (hv : (g.decl d).flags.kind = .value) (ht : g.declaredType d = some t) (h : g.Resolves t trail r)
      (hr : r.filter g.isStructured = some e) (ho : g.Offers t trails ps) :
      Discovers g d (trail :: trails) ((g.decl d).exports.ids ++ (g.decl d).members.ids ++
        ps.filter fun p => (g.decl p).accessibility = .publicAccess).eraseDups

/-- The trail of a search that replaces no alias twice. -/
structure Bounded (g : Graph) (trail : Trail) : Prop where
  nodup : trail.aliases.Nodup
  aliases : ∀ x ∈ trail.aliases, x ∈ g.aliases
  length_le : trail.aliases.length ≤ g.aliases.card
  depth_le : trail.depth ≤ g.aliases.card

theorem mem_aliases_iff {d : Id} : d ∈ g.aliases ↔ ∃ t, (g.decl d).importTarget = some t := by
  rw [aliases, Finset.mem_filter, Finset.mem_range, Option.isSome_iff_exists, and_iff_right_iff_imp]
  rintro ⟨t, ht⟩
  exact g.lt_size_of_decl_ne fun e => by rw [e] at ht; cases ht

theorem bounded_idle : g.Bounded .idle :=
  ⟨List.nodup_nil, fun _ hx => absurd hx List.not_mem_nil, Nat.zero_le _, Nat.zero_le _⟩

namespace Searches

variable {seen : List Id} {d : Id} {path : List String} {trail : Trail} {r : Option Id}

/-- **A search replaces no alias twice,** and none that was replaced before. -/
theorem fresh (h : g.Searches seen d path trail r) :
    trail.aliases.Nodup ∧ ∀ x ∈ trail.aliases, x ∉ seen := by
  induction h with
  | plain | again => exact ⟨List.nodup_nil, fun _ hx => absurd hx List.not_mem_nil⟩
  | missing _ hd => exact ⟨List.nodup_singleton _, fun x hx => List.mem_singleton.1 hx ▸ hd⟩
  | through _ hd _ _ _ ih =>
    refine ⟨List.nodup_cons.2 ⟨fun hx => ih.2 _ hx List.mem_cons_self, ih.1⟩, fun x hx => ?_⟩
    rcases List.mem_cons.1 hx with rfl | hx
    · exact hd
    · exact fun hs => ih.2 x hx (List.mem_cons_of_mem _ hs)
  | stop _ ih | unexported _ _ ih => exact ih
  | down _ _ _ ih ihn =>
    refine ⟨List.nodup_append.2 ⟨ih.1, ihn.1, ?_⟩, fun x hx => ?_⟩
    · rintro x hx _ hx' rfl
      exact ihn.2 x hx' (List.mem_append_left _ (List.mem_reverse.2 hx))
    · rcases List.mem_append.1 hx with hx | hx
      · exact ih.2 x hx
      · exact fun hs => ihn.2 x hx (List.mem_append_right _ hs)

theorem mem_aliases (h : g.Searches seen d path trail r) : ∀ x ∈ trail.aliases, x ∈ g.aliases := by
  induction h with
  | plain | again => exact fun _ hx => absurd hx List.not_mem_nil
  | missing h => exact fun x hx => List.mem_singleton.1 hx ▸ mem_aliases_iff.2 ⟨_, h⟩
  | through h _ _ _ _ ih =>
    intro x hx
    rcases List.mem_cons.1 hx with rfl | hx
    · exact mem_aliases_iff.2 ⟨_, h⟩
    · exact ih x hx
  | stop _ ih | unexported _ _ ih => exact ih
  | down _ _ _ ih ihn =>
    intro x hx
    rcases List.mem_append.1 hx with hx | hx
    · exact ih x hx
    · exact ihn x hx

/-- Each level inside another takes an alias of its own. -/
theorem depth_le (h : g.Searches seen d path trail r) : trail.depth ≤ trail.aliases.length := by
  induction h with
  | plain | again => exact Nat.zero_le _
  | missing => exact Nat.le_refl _
  | through _ _ _ _ _ ih => exact Nat.succ_le_succ ih
  | stop _ ih | unexported _ _ ih => exact ih
  | down _ _ _ ih ihn =>
    simp only [Trail.andThen, List.length_append]
    omega

theorem bounded (h : g.Searches seen d path trail r) : g.Bounded trail := by
  have hlength : trail.aliases.length ≤ g.aliases.card := by
    rw [← List.toFinset_card_of_nodup h.fresh.1]
    exact Finset.card_le_card fun x hx => h.mem_aliases x (List.mem_toFinset.1 hx)
  exact ⟨h.fresh.1, h.mem_aliases, hlength, h.depth_le.trans hlength⟩

end Searches

theorem Resolves.bounded {t : TypeRef} {trail : Trail} {r : Option Id} (h : g.Resolves t trail r) :
    g.Bounded trail := by
  cases h with
  | nameless | missing => exact bounded_idle
  | found _ _ hl => exact hl.bounded

theorem Targets.bounded {ts : List TypeRef} {trails : List Trail} {ds : List Id}
    (h : g.Targets ts trails ds) : ∀ x ∈ trails, g.Bounded x := by
  induction h with
  | nil => exact fun _ hx => absurd hx List.not_mem_nil
  | cons h _ ih => exact List.forall_mem_cons.2 ⟨h.bounded, ih⟩

theorem Gathers.bounded {pending seen : List Id} {acc table : Table} {trails : List Trail}
    (h : g.Gathers pending seen acc trails table) : ∀ x ∈ trails, g.Bounded x := by
  induction h with
  | done => exact fun _ hx => absurd hx List.not_mem_nil
  | seen _ _ ih => exact ih
  | fresh _ hb _ ih => exact List.forall_mem_append.2 ⟨hb.bounded, ih⟩

theorem Offers.bounded {t : TypeRef} {trails : List Trail} {ps : List Id} (h : g.Offers t trails ps) :
    ∀ x ∈ trails, g.Bounded x := by
  cases h with
  | nothing h => exact List.forall_mem_cons.2 ⟨h.bounded, fun _ hx => absurd hx List.not_mem_nil⟩
  | members h _ hs => exact List.forall_mem_cons.2 ⟨h.bounded, hs.bounded⟩

theorem Discovers.bounded {d : Id} {trails : List Trail} {cs : List Id} (h : g.Discovers d trails cs) :
    ∀ x ∈ trails, g.Bounded x := by
  cases h with
  | untyped => exact fun _ hx => absurd hx List.not_mem_nil
  | unstructured _ _ h => exact List.forall_mem_cons.2 ⟨h.bounded, fun _ hx => absurd hx List.not_mem_nil⟩
  | structured _ _ h _ ho => exact List.forall_mem_cons.2 ⟨h.bounded, ho.bounded⟩

/-! ## The searches that are made -/

/-- **A look-up comes to the outermost scope at last.** -/
theorem lookup_looksUp (hg : g.ParentsEnd) (name : String) (s : Option Id) :
    g.LooksUp name s (g.lookup name s) := by
  obtain ⟨l, hl⟩ := hg.enclosing s
  rw [lookup, hl.scopes_eq]
  induction hl with
  | file =>
    rw [List.findSome?_nil, Option.none_or]
    exact .file
  | @scope m l _ ih =>
    rw [List.findSome?_cons]
    cases hm : (g.localsOf (some m)).find? name with
    | none => exact .outer hm ih
    | some d => exact .here hm

mutual

theorem unalias_searches (hg : g.ParentsEnd) (d : Id) (seen : List Id) :
    ∃ trail, g.Searches seen d [] trail (g.unalias d seen).target ∧
      (g.unalias d seen).opened = trail.aliases.reverse ++ seen := by
  match h : (g.decl d).importTarget with
  | none =>
    rw [unalias_plain h]
    exact ⟨_, .plain h, rfl⟩
  | some t =>
    by_cases hd : d ∈ seen
    · rw [unalias_seen h hd]
      exact ⟨_, .again h hd, rfl⟩
    match hseg : segments (t.name?.getD "") with
    | [] => exact absurd hseg (segments_ne_nil _)
    | head :: path =>
      have hup := lookup_looksUp hg head t.scope?
      match hx : g.lookup head t.scope? with
      | none =>
        rw [hx] at hup
        obtain ⟨ht, ho⟩ := unalias_missing h hd hseg hx
        rw [ht]
        exact ⟨_, .missing h hd hseg hup, ho⟩
      | some x =>
        rw [hx] at hup
        obtain ⟨ht, ho⟩ := unalias_alias h hd hseg hx
        obtain ⟨trail, hl, hlo⟩ := follow_searches hg x path (d :: seen)
        rw [ht]
        refine ⟨_, .through h hd hseg hup hl, ?_⟩
        rw [ho, hlo, Trail.under, List.reverse_cons, List.append_assoc, List.singleton_append]
termination_by (g.unopened seen, 0)
decreasing_by exact .left _ _ (unopened_lt g h hd)

/-- **A search comes to an end,** and has replaced in the end what is on its trail. -/
theorem follow_searches (hg : g.ParentsEnd) (d : Id) (path : List String) (seen : List Id) :
    ∃ trail, g.Searches seen d path trail (g.follow d path seen).target ∧
      (g.follow d path seen).opened = trail.aliases.reverse ++ seen := by
  have hfirst := unalias_searches hg d seen
  match path with
  | [] => rwa [follow_nil]
  | segment :: path =>
    obtain ⟨trail, hl, ho⟩ := hfirst
    match ht : (g.unalias d seen).target with
    | none =>
      rw [ht] at hl
      rw [follow_none _ ht, ht]
      exact ⟨trail, .stop hl, ho⟩
    | some p =>
      rw [ht] at hl
      match hs : (g.decl p).exports.find? segment with
      | none =>
        obtain ⟨hct, hco⟩ := follow_missing ht hs
        rw [hct, hco]
        exact ⟨trail, .unexported hl hs, ho⟩
      | some next =>
        obtain ⟨hct, hco⟩ := follow_cons ht hs path
        obtain ⟨trail', hl', ho'⟩ := follow_searches hg next path (g.unalias d seen).opened
        rw [hct, hco, ho']
        refine ⟨trail.andThen trail', .down hl hs (ho ▸ hl'), ?_⟩
        rw [ho, Trail.andThen, List.reverse_append, List.append_assoc]
termination_by (g.unopened seen, path.length + 1)
decreasing_by
  · exact .right _ (by simp)
  · exact lex_of_le (unopened_mono g _) (by simp)

end

/-- A reference that is not spelled out resolves to nothing at once. -/
theorem resolve_of_not_spelled {t : TypeRef} (h : ∀ head path, ¬Spelled t head path) : g.resolve t = none := by
  rw [Option.eq_none_iff_forall_not_mem]
  intro d hd
  obtain ⟨head, path, hs⟩ := spelled_of_resolve hd
  exact h head path hs

theorem resolve_resolves (hg : g.ParentsEnd) (t : TypeRef) : ∃ trail, g.Resolves t trail (g.resolve t) := by
  by_cases h : ∃ head path, Spelled t head path
  · obtain ⟨head, path, hs⟩ := h
    have hup := lookup_looksUp hg head t.scope?
    rw [resolve_spelled hs]
    cases hx : g.lookup head t.scope? with
    | none => exact ⟨_, .missing hs (hx ▸ hup)⟩
    | some x =>
      obtain ⟨trail, hl, -⟩ := follow_searches hg x path []
      exact ⟨trail, .found hs (hx ▸ hup) hl⟩
  · rw [resolve_of_not_spelled fun head path hs => h ⟨head, path, hs⟩]
    exact ⟨_, .nameless fun head path hs => h ⟨head, path, hs⟩⟩

theorem structuredTarget_targets (hg : g.ParentsEnd) (ts : List TypeRef) :
    ∃ trails, g.Targets ts trails (ts.filterMap g.structuredTarget) := by
  induction ts with
  | nil => exact ⟨_, .nil⟩
  | cons t ts ih =>
    obtain ⟨trail, ht⟩ := resolve_resolves hg t
    obtain ⟨trails, hts⟩ := ih
    have hcons := Targets.cons ht hts
    rw [List.filterMap_cons]
    refine ⟨trail :: trails, ?_⟩
    change g.Targets _ _ ((g.structuredTarget t).toList ++ _) at hcons
    cases h : g.structuredTarget t <;> simpa [h] using hcons

theorem offered_gathers (hg : g.ParentsEnd) (pending seen : List Id) (acc : Table) :
    ∃ trails, g.Gathers pending seen acc trails (g.offered pending seen acc) := by
  fun_induction g.offered pending seen acc with
  | case1 => exact ⟨_, .done⟩
  | case2 _ _ _ _ hd ih =>
    obtain ⟨trails, h⟩ := ih
    exact ⟨_, .seen hd h⟩
  | case3 _ _ d _ hd ih =>
    obtain ⟨trails, hb⟩ := structuredTarget_targets hg (g.decl d).heritage
    obtain ⟨trails', h⟩ := ih
    exact ⟨_, .fresh hd hb h⟩

/-- **The search for the properties of a type ends.** -/
theorem properties_offers (hg : g.ParentsEnd) (t : TypeRef) : ∃ trails, g.Offers t trails (g.properties t) := by
  obtain ⟨trail, ht⟩ := resolve_resolves hg t
  unfold properties
  cases h : g.structuredTarget t with
  | none => exact ⟨_, .nothing ht h⟩
  | some d =>
    obtain ⟨trails, hs⟩ := offered_gathers hg [d] [] .empty
    exact ⟨_, .members ht h hs⟩

theorem children_discovers (hg : g.ParentsEnd) (d : Id) : ∃ trails, g.Discovers d trails (g.children d) := by
  by_cases hv : (g.decl d).flags.kind = .value
  · cases ht : g.declaredType d with
    | none =>
      rw [children, typed, if_pos hv, ht]
      simp only [List.append_nil]
      exact ⟨_, .untyped fun t _ => by rw [ht]; exact (Option.some_ne_none t).symm⟩
    | some t =>
      rw [children, typed, if_pos hv, ht]
      dsimp only
      obtain ⟨trail, hr⟩ := resolve_resolves hg t
      cases h : g.structuredTarget t with
      | none =>
        rw [properties, h]
        simp only [List.filter_nil, List.append_nil]
        exact ⟨_, .unstructured hv ht hr h⟩
      | some e =>
        obtain ⟨trails, ho⟩ := properties_offers hg t
        exact ⟨_, .structured hv ht hr h ho⟩
  · rw [children, typed, if_neg hv, List.append_nil]
    exact ⟨_, .untyped fun _ hv' => absurd hv' hv⟩

/-- All searches for names end, and replace no alias twice. -/
structure SearchesEnd (g : Graph) : Prop where
  resolves : ∀ t, ∃ trail, g.Resolves t trail (g.resolve t)
  bounded : ∀ t trail r, g.Resolves t trail r → g.Bounded trail
  /-- Each search for the properties of a type ends, and so does each for the types that it extends. -/
  offers : ∀ t, ∃ trails, g.Offers t trails (g.properties t)
  offersBounded : ∀ t trails ps, g.Offers t trails ps → ∀ trail ∈ trails, g.Bounded trail
  /-- So do the searches for the children of a declaration. -/
  discovers : ∀ d, ∃ trails, g.Discovers d trails (g.children d)
  discoversBounded : ∀ d trails cs, g.Discovers d trails cs → ∀ trail ∈ trails, g.Bounded trail

/-- **Every search for a name ends,** and replaces each alias once at most. -/
theorem ParentsEnd.searchesEnd (hg : g.ParentsEnd) : g.SearchesEnd where
  resolves := resolve_resolves hg
  bounded _ _ _ h := h.bounded
  offers := properties_offers hg
  offersBounded _ _ _ h := h.bounded
  discovers := children_discovers hg
  discoversBounded _ _ _ h := h.bounded

/-- An interface that extends itself by way of two aliases, with a property of its own type, and an
alias that stands for something in itself. -/
def tangled : Graph where
  nodes := #[
    { name := "I", flags := .single .interfaceDecl, heritage := [.named "A" none], members := ⟨[("p", 3)]⟩ },
    { name := "A", flags := .single .aliasName, importTarget := some (.named "B" none) },
    { name := "B", flags := .single .aliasName, importTarget := some (.named "I" none) },
    { name := "p", flags := .single .property, typeRef := some (.named "A" none), parent := some 0 },
    { name := "C", flags := .single .aliasName, importTarget := some (.named "C.x" none) }]
  roots := ⟨[("I", 0), ("A", 1), ("B", 2), ("C", 4)]⟩

theorem tangled_parentsEnd : tangled.ParentsEnd := by
  have hlt : ∀ d < 5, ∀ p, (tangled.decl d).parent = some p → p < d := by decide
  exact parentsEnd_of_lt_size hlt

/-- Through both aliases the interface is found. -/
theorem tangled_resolve : tangled.resolve (.named "A" none) = some 0 :=
  (resolve_eq_some_iff tangled_parentsEnd).2 ⟨[1, 2], ⟨"A", [], 1, ⟨rfl, _, rfl, by decide, rfl⟩, .file rfl,
    .through (t := .named "B" none) rfl rfl (.file rfl)
      (.through (t := .named "I" none) rfl rfl (.file rfl) (.plain rfl))⟩, by decide⟩

/-- The property leads to itself. -/
theorem tangled_children : tangled.children 3 = [3] := by
  have htarget : tangled.structuredTarget (.named "A" none) = some 0 := by
    rw [structuredTarget, tangled_resolve]
    rfl
  have hbases : tangled.bases 0 = [0] := by
    change [TypeRef.named "A" none].filterMap tangled.structuredTarget = [0]
    rw [List.filterMap_cons, htarget]
    rfl
  have hoffered : tangled.offered [0] [] .empty = ⟨[("p", 3)]⟩ := by
    rw [offered, dif_neg List.not_mem_nil, hbases, List.nil_append, offered, dif_pos List.mem_cons_self, offered]
    rfl
  have htyped : tangled.typed 3 = [3] := by
    have htype : tangled.declaredType 3 = some (.named "A" none) := rfl
    rw [typed, if_pos (by decide), htype]
    simp only [properties, htarget, hoffered]
    decide
  rw [children, htyped]
  rfl

/-- All searches about this interface end, with the three aliases replaced once at most in each. -/
theorem tangled_searches : tangled.ParentsEnd ∧ tangled.aliases.card = 3 ∧
    (∃ trail, tangled.Resolves (.named "A" none) trail (some 0) ∧ tangled.Bounded trail) ∧
    ∃ trails, tangled.Discovers 3 trails [3] ∧ ∀ trail ∈ trails, tangled.Bounded trail := by
  have hends := tangled_parentsEnd.searchesEnd
  obtain ⟨trail, ht⟩ := hends.resolves (.named "A" none)
  obtain ⟨trails, hts⟩ := hends.discovers 3
  have hbounded := hends.bounded _ _ _ ht
  have hall := hends.discoversBounded _ _ _ hts
  rw [tangled_resolve] at ht
  rw [tangled_children] at hts
  exact ⟨tangled_parentsEnd, by decide, ⟨trail, ht, hbounded⟩, trails, hts, hall⟩

end Graph

end Externs
