import Externs.Proofs.Bind.Labels
import Externs.Proofs.Bind.Stated
import Externs.Proofs.Walk.Namings

/-!
# A bound graph is a forest

Whatever a file states, in whatever order, its graph is a forest with labels: exports and
members lead from each declaration to what has it as parent, every table has its keys from
the names in it, and every type is written in a module around the declaration that has it.

* `Forest`: nothing is inside itself, or in two places.
* `IsQuoted`: a module that the file states with a quoted name.
* `WellBound`: all that holds of a bound graph.
* `bound_wellBound`: it holds of every file.
-/

namespace Externs

/-- What has one key in a table is in it once. -/
theorem Table.nodup_ids {t : Table} (h : t.keys.Nodup)
    (hk : ∀ {key key' : String} {d : Id}, (key, d) ∈ t.entries → (key', d) ∈ t.entries → key = key') :
    t.ids.Nodup := by
  refine List.Nodup.map_on ?_ (List.Nodup.of_map _ h)
  rintro ⟨key, d⟩ he ⟨key', d'⟩ he' rfl
  rw [hk he he']

theorem Table.exists_entry {t : Table} {d : Id} (h : d ∈ t.ids) : ∃ key, (key, d) ∈ t.entries := by
  obtain ⟨⟨key, _⟩, he, rfl⟩ := List.mem_map.1 h
  exact ⟨key, he⟩

namespace Graph

variable {g : Graph} {ss : List Statement}

/-- Exports and members lead from each declaration to other ones, and to each of them once. -/
structure Forest (g : Graph) : Prop where
  wellFounded : WellFounded g.Holds
  holder : ∀ {p p' c : Id}, g.Holds p c → g.Holds p' c → p = p'
  nodup : ∀ p, ((g.decl p).exports.ids ++ (g.decl p).members.ids).Nodup
  roots : ∀ d ∈ g.roots.ids, ∀ p, ¬g.Holds p d

/-- The file states the module with a quoted name. -/
def IsQuoted (g : Graph) (ss : List Statement) (d : Id) : Prop :=
  g.isModule d = true ∧ ∃ s body, g.StatedIn ss s (.moduleDecl (.quoted (g.decl d).name) body)

/-- `m` is around `d`. -/
def Encloses (g : Graph) (m d : Id) : Prop := Relation.TransGen (fun p c => (g.decl c).parent = some p) m d

/-- What holds of the graph of a file with the statements `ss`. -/
structure WellBound (g : Graph) (ss : List Statement) : Prop where
  parentsEnd : g.ParentsEnd
  /-- What stands in a table has its owner as parent: none in the roots. -/
  parent : ∀ {p : Spot} {key : String} {d : Id}, g.Entry p key d → (g.decl d).parent = p.owner
  keys : ∀ p, (g.tableAt p).keys.Nodup
  /-- A declaration has one key, and stands in exports and scopes or else in members. -/
  once : ∀ {p p' : Spot} {key key' : String} {d : Id}, g.Entry p key d → g.Entry p' key' d →
    p.owner = p'.owner ∧ p.isMembers = p'.isMembers ∧ key = key'
  forest : g.Forest
  /-- Every key is a name, but for those of modules that are stated with quoted names. -/
  keyed : ∀ {p : Spot} {key : String} {d : Id}, g.Entry p key d →
    key = (g.decl d).name ∨ g.IsQuoted ss d ∧ key = "\"" ++ (g.decl d).name ++ "\""
  /-- A quoted name leads to a module by the key in quotes, a dotted one by the keys without. -/
  named : ∀ {s : Option Id} {name : ModuleName} {body : List Statement},
    g.StatedIn ss s (.moduleDecl name body) →
      ∃ m, g.NamedAt s name m ∧ ∀ d, m = some d → g.isModule d = true
  tabled : ∀ d, (g.decl d).locals.isSome = g.isModule d
  /-- A type is written in the file, or in a module around the declaration that has it. -/
  scopes : ∀ d, ∀ r ∈ (g.decl d).refs, ∀ m, r.scope? = some m → g.isModule m = true ∧ g.Encloses m d

/-- A declaration has one place. -/
theorem Placed.forest (h : g.Placed) (hg : g.Shaped) : g.Forest where
  wellFounded := Subrelation.wf (fun {_ _} hc => hg.parent_of_holds hc) (parentsEnd_of_lt hg.parent_lt)
  holder hc hc' := Option.some.inj ((hg.parent_of_holds hc).symm.trans (hg.parent_of_holds hc'))
  nodup p := by
    have once : ∀ q, (g.tableAt q).ids.Nodup := fun q =>
      Table.nodup_ids (h.keys q) fun {key key' d} (he : g.Entry q key d) (he' : g.Entry q key' d) =>
        (h.once he he').2
    refine List.nodup_append.2 ⟨once (.exports p), once (.members p), ?_⟩
    rintro d hd _ hd' rfl
    obtain ⟨key, he⟩ : ∃ key, g.Entry (.exports p) key d := Table.exists_entry hd
    obtain ⟨key', he'⟩ : ∃ key, g.Entry (.members p) key d := Table.exists_entry hd'
    cases (h.once he he').1
  roots d hd p hp := by
    have hpar := hg.parent_of_holds hp
    rw [hg.parent_of_root hd] at hpar
    cases hpar

theorem Labelled.goesBy_of_entry {Q : String → Prop} {o : Option Id} (h : g.Labelled Q o) {p : Spot}
    {key : String} {d : Id} (he : g.Entry p key d) : g.GoesBy Q key d := by
  cases p with
  | locals s => exact h.keyed_locals s key d he
  | exports m => exact (h.fits m).exports key d he
  | members m => exact (h.fits m).members key d he

/-- The parent of a declaration and the parent of that are around it. -/
theorem Near.encloses {d m : Id} (h : g.Near (g.decl d).parent (some m)) :
    g.isModule m = true ∧ g.Encloses m d := by
  obtain ⟨hm, hp | ⟨q, hq, hqm⟩⟩ := h m rfl
  · exact ⟨hm, .single hp⟩
  · exact ⟨hm, .tail (.single hqm) hq⟩

end Graph

/-- A quoted name is stated somewhere: what is around it leads to a scope. -/
theorem Statement.Quotes.statedIn {ambient : Bool} {ss : List Statement} {st : Statement} {n : String}
    (h : st.Quotes n) {s : Option Id} (hs : (bound ambient ss).StatedIn ss s st) :
    ∃ s' body, (bound ambient ss).StatedIn ss s' (.moduleDecl (.quoted n) body) := by
  induction h generalizing s with
  | here => exact ⟨s, _, hs⟩
  | block hm _ ih =>
    obtain ⟨m, hn, -⟩ := hs.namedAt
    exact ih (.block hs hn hm)
  | ambient hm _ ih => exact ih (.ambient hs hm)
  | exported hm _ ih => exact ih (.exported hs hm)
  | global hm _ ih => exact ih (.global hs hm)

/-- **What holds of every bound graph.** -/
theorem bound_wellBound (ambient : Bool) (ss : List Statement) : (bound ambient ss).WellBound ss := by
  have hg := bound_shaped ambient ss
  have hp := bound_placed ambient ss
  have hl := bound_labelled ambient ss
  refine ⟨bound_parentsEnd ambient ss, hg.parent_of_entry, hp.keys, ?_, hp.forest hg, ?_, ?_, ?_, ?_⟩
  · intro p p' key key' d he he'
    exact ⟨(hg.parent_of_entry he).symm.trans (hg.parent_of_entry he'), hp.once he he'⟩
  · intro p key d he
    obtain ⟨-, hkey | ⟨hmod, ⟨st, hm, hq⟩, hkey⟩⟩ := hl.goesBy_of_entry he
    · exact Or.inl hkey
    · exact Or.inr ⟨⟨hmod, hq.statedIn (.file hm)⟩, hkey⟩
  · intro s name body hs
    obtain ⟨m, hn, hscope⟩ := hs.namedAt
    exact ⟨m, hn, fun d hd => hl.isModule_of_isScope (hd ▸ hscope)⟩
  · intro d
    rw [Bool.eq_iff_iff]
    refine ⟨fun hd => ?_, fun hd => hl.tabled d hd nofun⟩
    obtain ⟨t, ht⟩ := Option.isSome_iff_exists.1 hd
    exact ((hl.fits d).locals t ht).2
  · intro d r hr m hm
    have hnear := (hl.fits d).scopes r hr
    rw [hm] at hnear
    exact hnear.encloses

end Externs
