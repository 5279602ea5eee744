import Externs.Proofs.Walk.Edges

/-!
# The routes behind the names

A name that the walk gives joins the own names along the way that led to it: a root, then
each time a child of the one before. A declaration goes on the stack only when the one
before it on the way is expanded, and by then all that come earlier on the way have been.
So no declaration is passed twice; the last one of a way may be met a second time, and is
listed there. A type that has itself as the type of a property ends after one round.

* `Route`: the ways of discovery.
* `Framed`: a frame of the stack, with the route behind its name.
* `Framed.expand`: the frames that an expansion adds have routes as well.
* `walk_simplyNamed`: every visit of a walk has a name that joins such a route.
-/

namespace Externs

namespace Graph

variable {g : Graph}

/-- `g.Route before d`: the declarations `before` lead from a root to `d`, each one to its child. -/
inductive Route (g : Graph) : List Id → Id → Prop
  | root {d : Id} (h : d ∈ g.roots.ids) : Route g [] d
  | child {before : List Id} {p c : Id} (h : Route g before p) (hc : c ∈ g.children p) :
      Route g (before ++ [p]) c

/-- The own names of some declarations, joined. -/
def joinedName (g : Graph) (ds : List Id) : String := ".".intercalate (ds.map g.ownName)

/-- `n` is the name of `d` by a route on which nothing comes twice before `d`. -/
structure NamedBy (g : Graph) (before : List Id) (d : Id) (n : String) : Prop where
  route : g.Route before d
  distinct : before.Nodup
  name : n = g.joinedName (before ++ [d])

/-- A frame with the route behind its name: all that comes before its declaration is expanded. -/
def Framed (g : Graph) (visited : List Id) (x : Id × String) : Prop :=
  ∃ before, g.NamedBy before x.1 x.2 ∧ ∀ p ∈ before, p ∈ visited

theorem joinedName_append (ds : List Id) (p c : Id) :
    g.joinedName (ds ++ [p] ++ [c]) = g.joinedName (ds ++ [p]) ++ "." ++ g.ownName c := by
  have hne : (ds ++ [p]).map g.ownName ≠ [] := by simp
  rw [joinedName, List.map_append, String.intercalate_append_of_ne_nil hne (by simp)]
  rw [List.map_singleton, String.intercalate_singleton]
  rfl

/-- Nothing is led to that the roots do not reach. -/
theorem Route.reached {before : List Id} {d : Id} (h : g.Route before d) :
    g.Reached d ∧ ∀ p ∈ before, g.Reached p := by
  induction h with
  | root h => exact ⟨.root h, fun p hp => absurd hp List.not_mem_nil⟩
  | @child before p c _ hc ih =>
    obtain ⟨hp, hbefore⟩ := ih
    refine ⟨.child hp hc, fun x hx => ?_⟩
    rcases List.mem_append.1 hx with hx | hx
    · exact hbefore x hx
    · exact List.mem_singleton.1 hx ▸ hp

/-- A route that passes nothing twice is no longer than what is reached, but for its end. -/
theorem NamedBy.length_le {before : List Id} {d : Id} {n : String} (h : g.NamedBy before d n) :
    (before ++ [d]).length ≤ g.reach.card + 1 := by
  have hsub : before.toFinset ⊆ g.reach := by
    intro p hp
    exact mem_reach.2 (h.route.reached.2 p (List.mem_toFinset.1 hp))
  have hcard := Finset.card_le_card hsub
  rw [List.toFinset_card_of_nodup h.distinct] at hcard
  rw [List.length_append, List.length_singleton]
  omega

theorem Framed.mono {visited visited' : List Id} {x : Id × String} (h : g.Framed visited x)
    (hv : ∀ p ∈ visited, p ∈ visited') : g.Framed visited' x := by
  obtain ⟨before, hn, hb⟩ := h
  exact ⟨before, hn, fun p hp => hv p (hb p hp)⟩

/-- **An expansion gives routes to the children.** What comes before the declaration was expanded
earlier, so the declaration is not among it. -/
theorem Framed.expand {visited : List Id} {d : Id} {name : String} (h : g.Framed visited (d, name))
    (hd : d ∉ visited) : ∀ x ∈ g.addressed d name, g.Framed (d :: visited) x := by
  obtain ⟨before, ⟨hroute, hdistinct, hname⟩, hb⟩ := h
  rintro ⟨c, n⟩ hx
  obtain ⟨hc, rfl⟩ := mem_addressed.1 hx
  have hfresh : d ∉ before := fun hdb => hd (hb d hdb)
  have hdistinct' : (before ++ [d]).Nodup := by
    rw [List.nodup_append]
    refine ⟨hdistinct, List.nodup_singleton d, ?_⟩
    rintro a ha b hb rfl
    exact hfresh (List.mem_singleton.1 hb ▸ ha)
  refine ⟨before ++ [d], ⟨.child hroute hc, hdistinct', ?_⟩, fun p hp => ?_⟩
  · rw [joinedName_append, ← hname]
  · rcases List.mem_append.1 hp with hp | hp
    · exact List.mem_cons_of_mem d (hb p hp)
    · exact List.mem_singleton.1 hp ▸ List.mem_cons_self

/-- The visits that come of an expansion have routes behind their names. -/
theorem Framed.firstVisit {visited : List Id} {d : Id} {name : String} (h : g.Framed visited (d, name))
    (hd : d ∉ visited) :
    ∀ v ∈ g.firstVisit d name visited, ∃ before, g.NamedBy before v.node v.name := by
  have hself : ∃ before, g.NamedBy before d name := by
    obtain ⟨before, hn, -⟩ := h
    exact ⟨before, hn⟩
  intro v hv
  unfold Graph.firstVisit at hv
  split at hv
  · rw [List.mem_singleton.1 hv]
    exact hself
  · rcases List.mem_cons.1 hv with rfl | hv
    · exact hself
    · obtain ⟨x, hx, rfl⟩ := List.mem_map.1 hv
      obtain ⟨before, hn, -⟩ := h.expand hd x (List.mem_filter.1 hx).1
      exact ⟨before, hn⟩

/-- **A run keeps the routes.** -/
theorem visits_namedBy (g : Graph) (stack : List (Id × String)) (visited : List Id)
    (hs : ∀ x ∈ stack, g.Framed visited x) :
    ∀ v ∈ g.visits stack visited, ∃ before, g.NamedBy before v.node v.name := by
  induction stack, visited using g.visits_induct with
  | nil visited => rw [visits_nil]; exact fun v hv => absurd hv List.not_mem_nil
  | seen d name rest visited h ih =>
    rw [visits_seen h]
    obtain ⟨before, hn, -⟩ := hs (d, name) List.mem_cons_self
    intro v hv
    rcases List.mem_cons.1 hv with rfl | hv
    · exact ⟨before, hn⟩
    · exact ih (fun x hx => hs x (List.mem_cons_of_mem _ hx)) v hv
  | fresh d name rest visited h ih =>
    rw [visits_fresh h]
    have hframe := hs (d, name) List.mem_cons_self
    -- what lies below on the stack was framed before this expansion, and stays so
    have hnext : ∀ x ∈ g.pushed d name visited ++ rest, g.Framed (d :: visited) x := by
      intro x hx
      rcases List.mem_append.1 hx with hx | hx
      · obtain ⟨hc, hn, -⟩ := mem_pushed.1 hx
        exact hframe.expand h x (mem_addressed.2 ⟨hc, hn⟩)
      · exact (hs x (List.mem_cons_of_mem _ hx)).mono fun p hp => List.mem_cons_of_mem d hp
    intro v hv
    rcases List.mem_append.1 hv with hv | hv
    · exact hframe.firstVisit h v hv
    · exact ih hnext v hv

/-- What the walk has to do with the routes of discovery. -/
structure SimplyNamed (g : Graph) : Prop where
  /-- Every visit has a name by a route that passes nothing twice. -/
  visits : ∀ v ∈ g.walk, ∃ before, g.NamedBy before v.node v.name
  /-- So every name listed joins at most one own name more than there are declarations reached. -/
  names : ∀ n ∈ listed g g.walk, ∃ before d, g.NamedBy before d n ∧
    (before ++ [d]).length ≤ g.reach.card + 1

/-- **Every name is that of a simple route.** -/
theorem walk_simplyNamed (g : Graph) : g.SimplyNamed := by
  have hroots : ∀ x ∈ g.rootStack, g.Framed [] x := by
    rintro ⟨d, n⟩ hx
    obtain ⟨hd, hn⟩ := mem_rootStack.1 hx
    refine ⟨[], ⟨.root hd, List.nodup_nil, ?_⟩, fun p hp => absurd hp List.not_mem_nil⟩
    rw [hn, joinedName, List.nil_append, List.map_singleton, String.intercalate_singleton]
  have hvisits := g.visits_namedBy g.rootStack [] hroots
  refine ⟨hvisits, fun n hn => ?_⟩
  obtain ⟨v, hv, rfl⟩ := List.mem_map.1 hn
  obtain ⟨before, hnamed⟩ := hvisits v (List.mem_filter.1 hv).1
  exact ⟨before, v.node, hnamed, hnamed.length_le⟩

/-- A module that exports itself. -/
def selfExport : Graph where
  nodes := #[{ name := "N", flags := .single .moduleDecl, exports := ⟨[("N", 0)]⟩, locals := some .empty }]
  roots := ⟨[("N", 0)]⟩

-- one declaration, and a name of two own names: there are no longer ones
example : listed selfExport selfExport.walk = ["N.N"] := by cbv

end Graph

end Externs
