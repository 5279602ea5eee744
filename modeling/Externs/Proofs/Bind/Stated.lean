import Externs.Proofs.Bind.Runs

/-!
# Where a statement stands

A statement of a file stands in a scope: in the file itself, or in the module whose block
it is in. What binding does with it, it does in that scope, at some point of its run, and
what comes after takes nothing away.

* `NamedAt`: the scope that the name of a module leads to.
* `StatedIn`: the statements of a file, each with the scope in which it stands.
* `StatedIn.boundOn`: a statement is bound in the scope in which it stands.
* `StatedIn.namedAt`: the name of a module that is stated leads to a scope.
-/

namespace Externs

namespace Graph

variable {g g' : Graph} {s : Option Id}

/-- `g.Leads s segments m`: the segments lead from the scope `s` to the scope `m`. -/
inductive Leads (g : Graph) : Option Id → List String → Option Id → Prop
  | here {s : Option Id} : Leads g s [] s
  | inside {s : Option Id} {segment : String} {rest : List String} {d : Id} {m : Option Id}
      (h : (g.localsOf s).find? segment = some d) (hr : Leads g (some d) rest m) :
      Leads g s (segment :: rest) m

/-- The name of a module leads from the scope `s` to the scope `m`. -/
inductive NamedAt (g : Graph) (s : Option Id) : ModuleName → Option Id → Prop
  | quoted {name : String} {d : Id} (h : (g.localsOf s).find? ("\"" ++ name ++ "\"") = some d) :
      NamedAt g s (.quoted name) (some d)
  | dotted {segments : List String} {m : Option Id} (h : g.Leads s segments m) : NamedAt g s (.dotted segments) m

/-- `g.StatedIn ss s st`: among the statements `ss` of a file, `st` stands in the scope `s`. -/
inductive StatedIn (g : Graph) (ss : List Statement) : Option Id → Statement → Prop
  | file {st : Statement} (h : st ∈ ss) : StatedIn g ss none st
  | ambient {s : Option Id} {inner : List Statement} {st : Statement} (h : StatedIn g ss s (.ambient inner))
      (hm : st ∈ inner) : StatedIn g ss s st
  | exported {s : Option Id} {inner : List Statement} {st : Statement} (h : StatedIn g ss s (.exported inner))
      (hm : st ∈ inner) : StatedIn g ss s st
  /-- A `global` block stands in the file, wherever it is written. -/
  | global {s : Option Id} {body : List Statement} {st : Statement} (h : StatedIn g ss s (.global body))
      (hm : st ∈ body) : StatedIn g ss none st
  | block {s : Option Id} {name : ModuleName} {body : List Statement} {m : Option Id} {st : Statement}
      (h : StatedIn g ss s (.moduleDecl name body)) (hn : g.NamedAt s name m) (hm : st ∈ body) :
      StatedIn g ss m st

theorem Leads.grows (h : Grows g g') {segments : List String} {m : Option Id} (hl : g.Leads s segments m) :
    g'.Leads s segments m := by
  induction hl with
  | here => exact .here
  | inside hd _ ih => exact .inside (h.find hd) ih

theorem NamedAt.grows (h : Grows g g') {name : ModuleName} {m : Option Id} (hn : g.NamedAt s name m) :
    g'.NamedAt s name m := by
  cases hn with
  | quoted hd => exact .quoted (h.find hd)
  | dotted hl => exact .dotted (hl.grows h)

theorem Leads.unique {segments : List String} {m m' : Option Id} (h : g.Leads s segments m)
    (h' : g.Leads s segments m') : m = m' := by
  induction h with
  | here => cases h'; rfl
  | inside hd _ ih =>
    cases h' with
    | inside hd' hr' =>
      cases hd.symm.trans hd'
      exact ih hr'

theorem NamedAt.unique {name : ModuleName} {m m' : Option Id} (h : g.NamedAt s name m)
    (h' : g.NamedAt s name m') : m = m' := by
  cases h with
  | quoted hd =>
    cases h' with
    | quoted hd' => exact hd.symm.trans hd'
  | dotted hl =>
    cases h' with
    | dotted hl' => exact hl.unique hl'

theorem openModule_find (hs : g.IsScope s) (key name : String) (exported : Bool) :
    ((g.openModule s key name exported).1.localsOf s).find? key =
      some (g.openModule s key name exported).2 := by
  have htable : Edit (g.declare s key name .moduleDecl exported).1 (g.openModule s key name exported).1 :=
    .table (declare_declared hs key name .moduleDecl exported)
  exact htable.grows.find (declare_find hs key name .moduleDecl exported)

/-- The segments of a name lead to the module that they open. -/
theorem openModules_leads (hg : g.Shaped) (hs : g.IsScope s) (exported : Bool) (segments : List String) :
    (g.openModules s exported segments).1.Leads s segments (g.openModules s exported segments).2 := by
  induction segments generalizing g s exported with
  | nil => exact .here
  | cons segment rest ih =>
    have hopen := openModule_edits hs segment segment exported
    have hscope := openModule_isScope hg hs segment segment exported
    have hrest := openNamed_edits (Edits.shaped hopen hg) ⟨_, true⟩ hscope true (.dotted rest)
    exact .inside ((Edits.grows hrest).find (openModule_find hs segment segment exported))
      (ih (Edits.shaped hopen hg) hscope true)

theorem openNamed_namedAt (hg : g.Shaped) (hs : g.IsScope s) (exported : Bool) (name : ModuleName) :
    (g.openNamed s exported name).1.NamedAt s name (g.openNamed s exported name).2 := by
  cases name with
  | quoted name => exact .quoted (openModule_find hs _ name exported)
  | dotted segments => exact .dotted (openModules_leads hg hs exported segments)

theorem bindAll_append (scope : Scope) (ss ts : List Statement) :
    g.bindAll scope (ss ++ ts) = (g.bindAll scope ss).bindAll scope ts := by
  induction ss generalizing g with
  | nil => rw [List.nil_append, bindAll]
  | cons st ss ih => rw [List.cons_append, bindAll, bindAll, ih]

theorem bindEach_append (scope : Scope) (exported : Bool) (ss ts : List Statement) :
    g.bindEach scope exported (ss ++ ts) = (g.bindEach scope exported ss).bindEach scope exported ts := by
  induction ss generalizing g with
  | nil => rw [List.nil_append, bindEach]
  | cons st ss ih => rw [List.cons_append, bindEach, bindEach, ih]

theorem bindAmbient_append (scope : Scope) (exported : Bool) (ss ts : List Statement) :
    g.bindAmbient scope exported (ss ++ ts) =
      (g.bindAmbient scope exported ss).bindAmbient scope exported ts := by
  induction ss generalizing g with
  | nil => rw [List.nil_append, bindAmbient]
  | cons st ss ih => cases st <;> simp only [List.cons_append, bindAmbient, ih]

/-- On the way to `g`, the statement `st` is bound in the scope `s`, with or without `declare` before
it. -/
inductive BoundOn (g : Graph) (s : Option Id) (st : Statement) : Prop
  | plain {g₁ : Graph} {ambient exported : Bool} (hg : g₁.Shaped) (hs : g₁.IsScope s)
      (h : Edits (g₁.bind ⟨s, ambient⟩ exported st) g)
  | declared {g₁ : Graph} {ambient exported : Bool} (hg : g₁.Shaped) (hs : g₁.IsScope s)
      (h : Edits (g₁.bindAmbient ⟨s, ambient⟩ exported [st]) g)

section lists

variable {g₁ : Graph} {ss : List Statement} {st : Statement} {a exported : Bool}

theorem boundOn_of_bindAll (hg : g₁.Shaped) (hs : g₁.IsScope s) (h : Edits (g₁.bindAll ⟨s, a⟩ ss) g)
    (hm : st ∈ ss) : g.BoundOn s st := by
  obtain ⟨before, rest, rfl⟩ := List.append_of_mem hm
  rw [bindAll_append, bindAll] at h
  have hbefore := bindAll_edits hg ⟨s, a⟩ hs before
  have hg₂ := Edits.shaped hbefore hg
  have hs₂ := (Edits.grows hbefore).isScope hs
  have hst := bind_edits hg₂ ⟨s, a⟩ hs₂ a st
  have hrest := bindAll_edits (Edits.shaped hst hg₂) ⟨s, a⟩ ((Edits.grows hst).isScope hs₂) rest
  exact .plain hg₂ hs₂ (hrest.trans h)

theorem boundOn_of_bindEach (hg : g₁.Shaped) (hs : g₁.IsScope s)
    (h : Edits (g₁.bindEach ⟨s, a⟩ exported ss) g) (hm : st ∈ ss) : g.BoundOn s st := by
  obtain ⟨before, rest, rfl⟩ := List.append_of_mem hm
  rw [bindEach_append, bindEach] at h
  have hbefore := bindEach_edits hg ⟨s, a⟩ hs exported before
  have hg₂ := Edits.shaped hbefore hg
  have hs₂ := (Edits.grows hbefore).isScope hs
  have hst := bind_edits hg₂ ⟨s, a⟩ hs₂ exported st
  have hrest := bindEach_edits (Edits.shaped hst hg₂) ⟨s, a⟩ ((Edits.grows hst).isScope hs₂) exported rest
  exact .plain hg₂ hs₂ (hrest.trans h)

theorem boundOn_of_bindAmbient (hg : g₁.Shaped) (hs : g₁.IsScope s)
    (h : Edits (g₁.bindAmbient ⟨s, a⟩ exported ss) g) (hm : st ∈ ss) : g.BoundOn s st := by
  obtain ⟨before, rest, rfl⟩ := List.append_of_mem hm
  rw [List.append_cons, bindAmbient_append, bindAmbient_append] at h
  have hbefore := bindAmbient_edits hg ⟨s, a⟩ hs exported before
  have hg₂ := Edits.shaped hbefore hg
  have hs₂ := (Edits.grows hbefore).isScope hs
  have hst := bindAmbient_edits hg₂ ⟨s, a⟩ hs₂ exported [st]
  have hrest := bindAmbient_edits (Edits.shaped hst hg₂) ⟨s, a⟩ ((Edits.grows hst).isScope hs₂) exported
    rest
  exact .declared hg₂ hs₂ (hrest.trans h)

end lists

/-- A module is opened in its scope, and its block is bound in it. -/
theorem BoundOn.opens {name : ModuleName} {body : List Statement} (h : g.BoundOn s (.moduleDecl name body)) :
    ∃ (g₁ : Graph) (m : Option Id) (a : Bool), g₁.Shaped ∧ g₁.IsScope m ∧ g₁.NamedAt s name m ∧
      Edits (g₁.bindAll ⟨m, a⟩ body) g := by
  have opened : ∀ {g₁ : Graph} {a exported : Bool}, g₁.Shaped → g₁.IsScope s →
      Edits ((g₁.openNamed s exported name).1.bindAll ⟨(g₁.openNamed s exported name).2, a⟩ body) g →
      ∃ (g₁ : Graph) (m : Option Id) (a : Bool), g₁.Shaped ∧ g₁.IsScope m ∧ g₁.NamedAt s name m ∧
        Edits (g₁.bindAll ⟨m, a⟩ body) g := by
    intro g₁ a exported hg hs h
    have hopen := openNamed_edits hg ⟨s, a⟩ hs exported name
    exact ⟨_, _, a, Edits.shaped hopen hg, openNamed_isScope hg ⟨s, a⟩ hs exported name,
      openNamed_namedAt hg hs exported name, h⟩
  cases h with
  | plain hg hs h => rw [bind] at h; exact opened hg hs h
  | declared hg hs h => simp only [bindAmbient] at h; exact opened hg hs h

end Graph

variable {ambient : Bool} {ss : List Statement} {s : Option Id}

/-- **A statement is bound in the scope in which it stands.** -/
theorem Graph.StatedIn.boundOn {st : Statement} (h : (bound ambient ss).StatedIn ss s st) :
    (bound ambient ss).BoundOn s st := by
  induction h with
  | file hm => exact boundOn_of_bindAll shaped_empty (s := none) trivial .refl hm
  | ambient _ hm ih =>
    cases ih with
    | plain hg hs h => rw [bind] at h; exact boundOn_of_bindAmbient hg hs h hm
    | declared hg hs h =>
      simp only [bindAmbient, bind] at h
      exact boundOn_of_bindAmbient hg hs h hm
  | exported _ hm ih =>
    cases ih with
    | plain hg hs h => rw [bind] at h; exact boundOn_of_bindEach hg hs h hm
    | declared hg hs h =>
      simp only [bindAmbient, bind] at h
      exact boundOn_of_bindEach hg hs h hm
  | global _ hm ih =>
    cases ih with
    | plain hg _ h => rw [bind] at h; exact boundOn_of_bindAll (s := none) hg trivial h hm
    | declared hg _ h =>
      simp only [bindAmbient, bind] at h
      exact boundOn_of_bindAll (s := none) hg trivial h hm
  | @block _ _ body _ _ _ hn hm ih =>
    obtain ⟨g₁, m, a, hg, hs, hn₁, h⟩ := ih.opens
    -- the name leads to the same scope in the end
    have hbody := Edits.grows (bindAll_edits hg ⟨m, a⟩ hs body)
    cases ((hn₁.grows hbody).grows (Edits.grows h)).unique hn
    exact boundOn_of_bindAll hg hs h hm

/-- **The name of a module that is stated leads to a scope.** -/
theorem Graph.StatedIn.namedAt {name : ModuleName} {body : List Statement}
    (h : (bound ambient ss).StatedIn ss s (.moduleDecl name body)) :
    ∃ m, (bound ambient ss).NamedAt s name m ∧ (bound ambient ss).IsScope m := by
  obtain ⟨g₁, m, a, hg, hs, hn, hmoves⟩ := h.boundOn.opens
  have hgrows := (Edits.grows (bindAll_edits hg ⟨m, a⟩ hs body)).trans (Edits.grows hmoves)
  exact ⟨m, hn.grows hgrows, hgrows.isScope hs⟩

end Externs
