import Externs.Proofs.Bind.Forest
import Externs.Proofs.Bind.Merging
import Externs.Proofs.Resolve.Alias

/-!
# Quoted modules

A module that is declared with a string stands in the same tables as names do, under a key with
quotes. So it does not merge with what has the same text as its name. And no reference without
quotes gets into it from outside: keys without quotes lead past it, whatever exports they lead
through, and an alias that stands outside it resolves its target outside it again.

* `Outside`: a scope that is neither a module nor inside it.
* `WellBound.outside_of_entry`: what a key without quotes leads to from outside is outside.
* `LeadsTo.outside`, `Denotes.outside`: nor does a chain of aliases and exports lead in.
* `Isolated`: what a quoted module has to do with names and references without quotes.
* `bound_isolated`: every quoted module of a source is isolated.
-/

namespace Externs

/-- A reference whose name has no quotes. -/
def TypeRef.Unquoted (t : TypeRef) : Prop := '"' ∉ (t.name?.getD "").toList

instance (t : TypeRef) : Decidable t.Unquoted := inferInstanceAs (Decidable (_ ∉ _))

theorem TypeRef.mem_parts (t : TypeRef) : t ∈ t.parts := by cases t <;> exact List.mem_cons_self

/-- A name without quotes has segments without quotes. -/
theorem unquoted_of_mem_segments {name segment : String} (h : '"' ∉ name.toList)
    (hs : segment ∈ segments name) : '"' ∉ segment.toList := by
  obtain ⟨p, hp, rfl⟩ := List.mem_map.1 hs
  rw [String.toList_ofList]
  exact fun hq => h (mem_of_mem_cut hp hq)

/-- The key of a quoted module is no key without quotes. -/
theorem quoted_ne {key : String} (h : '"' ∉ key.toList) (n : String) : key ≠ "\"" ++ n ++ "\"" := by
  rintro rfl
  exact h (by simp)

/-- A name in quotes is not the name. -/
theorem ne_quoted (n : String) : n ≠ "\"" ++ n ++ "\"" := by
  intro h
  have hlen := congrArg String.length h
  simp only [String.length_append] at hlen
  have hquote : "\"".length = 1 := rfl
  omega

namespace Graph

open Statement

variable {g : Graph} {ss : List Statement} {m : Id} {s : Option Id}

/-- The target of `a`, if it is an alias, has no quotes. -/
def AimsUnquoted (g : Graph) (a : Id) : Prop := ∀ t, (g.decl a).importTarget = some t → t.Unquoted

/-- The scope is neither `m` nor inside it. -/
def Outside (g : Graph) (m : Id) (s : Option Id) : Prop := ∀ x, s = some x → x ≠ m ∧ ¬g.Encloses m x

theorem outside_file (m : Id) : g.Outside m none := nofun

/-- What is around a scope outside is outside. -/
theorem Outside.of_encloses {x y : Id} (h : g.Outside m (some x)) (hy : g.Encloses y x) : g.Outside m (some y) := by
  rintro _ ⟨⟩
  refine ⟨?_, fun hmy => (h x rfl).2 (hmy.trans hy)⟩
  rintro rfl
  exact (h x rfl).2 hy

theorem Outside.parent {x : Id} (h : g.Outside m (some x)) : g.Outside m (g.decl x).parent := by
  cases hp : (g.decl x).parent with
  | none => exact outside_file m
  | some p => exact h.of_encloses (.single hp)

/-- What stands in a scope outside is `m` itself or outside. -/
theorem Outside.eq_or {d : Id} (h : g.Outside m s) (hd : (g.decl d).parent = s) : d = m ∨ g.Outside m (some d) := by
  by_cases hm : d = m
  · exact Or.inl hm
  refine Or.inr ?_
  rintro _ ⟨⟩
  refine ⟨hm, fun hmd => ?_⟩
  obtain ⟨p, hmp, hp⟩ := Relation.TransGen.tail'_iff.1 hmd
  obtain ⟨hne, hout⟩ := h p (hd.symm.trans hp)
  rcases Relation.reflTransGen_iff_eq_or_transGen.1 hmp with e | hmp
  · exact hne e
  · exact hout hmp

section

variable (hw : g.WellBound ss) {n : String} {o : Option Id} (hm : g.NamedAt o (.quoted n) (some m))

include hw hm

/-- **What a key without quotes leads to from outside is outside.** -/
theorem WellBound.outside_of_entry {p : Spot} {key : String} {d : Id} (h : g.Entry p key d)
    (hkey : '"' ∉ key.toList) (hp : g.Outside m p.owner) : g.Outside m (some d) := by
  refine (hp.eq_or (hw.parent h)).resolve_left ?_
  rintro rfl
  cases hm with
  | quoted hm =>
    have hlocal : g.Entry (.locals o) ("\"" ++ n ++ "\"") d := Table.mem_entries_of_find? hm
    exact quoted_ne hkey n (hw.once h hlocal).2.2

theorem InSight.outside {key : String} {d : Id} (h : g.InSight key s d) (hkey : '"' ∉ key.toList)
    (hs : g.Outside m s) : g.Outside m (some d) := by
  have local_outside : ∀ {s}, (g.localsOf s).find? key = some d → g.Outside m s → g.Outside m (some d) :=
    fun {s} hd hs => hw.outside_of_entry hm (p := .locals s) (Table.mem_entries_of_find? hd) hkey hs
  induction h with
  | file h => exact local_outside (s := none) h hs
  | here h => exact local_outside h hs
  | outer _ _ ih => exact ih hs.parent local_outside

omit hm in
/-- An alias outside resolves its target outside. -/
theorem Outside.target {d : Id} {t : TypeRef} (h : g.Outside m (some d))
    (ht : (g.decl d).importTarget = some t) : g.Outside m t.scope? := by
  have hrefs : t ∈ (g.decl d).refs := Declaration.mem_refs.2 (Or.inr (Or.inr ⟨t, ht, t.mem_parts⟩))
  cases hs : t.scope? with
  | none => exact outside_file m
  | some x => exact h.of_encloses (hw.scopes d t hrefs x hs).2

/-- **No chain of aliases and exports leads in.** -/
theorem LeadsTo.outside {d e : Id} {path : List String} {used : List Id} (h : g.LeadsTo d path used e)
    (hpath : ∀ segment ∈ path, '"' ∉ segment.toList) (hused : ∀ a ∈ used, g.AimsUnquoted a)
    (hd : g.Outside m (some d)) : g.Outside m (some e) := by
  induction h with
  | plain => exact hd
  | @through d t head path x used e ht hseg hx _ ih =>
    have hunquoted : t.Unquoted := hused d List.mem_cons_self t ht
    have hsegments : ∀ segment ∈ head :: path, '"' ∉ segment.toList := fun segment hs =>
      unquoted_of_mem_segments hunquoted (hseg ▸ hs)
    have hout : g.Outside m (some x) :=
      hx.outside hw hm (hsegments head List.mem_cons_self) (hd.target hw ht)
    exact ih (fun segment hs => hsegments segment (List.mem_cons_of_mem _ hs))
      (fun a ha => hused a (List.mem_cons_of_mem _ ha)) hout
  | @down d segment path used p next used' e _ hs _ ih ihn =>
    have hp := ih nofun (fun a ha => hused a (List.mem_append_left _ ha)) hd
    have hnext : g.Outside m (some next) := hw.outside_of_entry hm (p := .exports p)
      (Table.mem_entries_of_find? hs) (hpath segment List.mem_cons_self) hp
    exact ihn (fun segment hs => hpath segment (List.mem_cons_of_mem _ hs))
      (fun a ha => hused a (List.mem_append_right _ ha)) hnext

theorem Denotes.outside {t : TypeRef} {used : List Id} {d : Id} (h : g.Denotes t used d) (ht : t.Unquoted)
    (hused : ∀ a ∈ used, g.AimsUnquoted a) (hs : g.Outside m t.scope?) : g.Outside m (some d) := by
  obtain ⟨head, path, x, ⟨-, name, hname, -, hseg⟩, hx, hl⟩ := h
  rw [TypeRef.Unquoted, hname] at ht
  have hsegments : ∀ segment ∈ head :: path, '"' ∉ segment.toList := fun segment hs =>
    unquoted_of_mem_segments ht (hseg ▸ hs)
  exact hl.outside hw hm (fun segment hs => hsegments segment (List.mem_cons_of_mem _ hs)) hused
    (hx.outside hw hm (hsegments head List.mem_cons_self) hs)

end

/-- What the module `m` with the quoted name `n` has to do with names and references without quotes, in
the graph of a file with the statements `ss`. -/
structure Isolated (g : Graph) (ss : List Statement) (s : Option Id) (n : String) (m : Id) : Prop where
  /-- What is declared by the same text without quotes, in whatever scope, is another declaration. -/
  distinct : ∀ p f, .declared (p ++ [n]) f ∈ factsAll [] ss →
    ∃ d, g.Leads none (p ++ [n]) (some d) ∧ (g.decl d).flags.has f = true ∧ d ≠ m
  /-- The flags of the module are said of the key in quotes. -/
  unmerged : ∃ p, g.Leads none p s ∧ ∀ f, (g.decl m).flags.has f = true →
    .declared (p ++ ["\"" ++ n ++ "\""]) f ∈ factsAll [] ss ∨ .static p ("\"" ++ n ++ "\"") f ∈ factsAll [] ss
  /-- A reference without quotes, in a scope outside, resolves to something outside, unless one of the
  aliases on its way has a target with quotes. -/
  unseen : ∀ t d, t.Unquoted → g.Outside m t.scope? → g.resolve t = some d →
    (∀ used, g.Denotes t used d → ∀ a ∈ used, g.AimsUnquoted a) → d ≠ m ∧ ¬g.Encloses m d

end Graph

/-- **A quoted module is isolated,** whatever is declared beside it and refers to it. -/
theorem bound_isolated (ambient : Bool) {ss : List Statement} {s : Option Id} {n : String}
    {body : List Statement} (h : (bound ambient ss).StatedIn ss s (.moduleDecl (.quoted n) body)) :
    ∃ m, (bound ambient ss).NamedAt s (.quoted n) (some m) ∧ (bound ambient ss).isModule m = true ∧
      (bound ambient ss).Isolated ss s n m := by
  have hg := bound_shaped ambient ss
  have hp := bound_placed ambient ss
  have hw := bound_wellBound ambient ss
  obtain ⟨_, hnamed, hmodule⟩ := hw.named h
  cases hnamed with
  | @quoted _ m hm =>
    refine ⟨m, .quoted hm, hmodule m rfl, fun p f hf => ?_, ?_, fun t d ht hs hd hused => ?_⟩
    · obtain ⟨d, hd, hflag⟩ := bound_bears ambient hf
      refine ⟨d, hd, hflag, ?_⟩
      rintro rfl
      obtain ⟨s', _, -, hd', ⟨⟩⟩ := Graph.leads_snoc_iff.1 hd
      exact ne_quoted n (hp.local_unique hg hd' hm).2
    · obtain ⟨p, hpath, -, hflags⟩ := (bound_explained ambient ss).locals hm
      exact ⟨p, hpath, hflags⟩
    · obtain ⟨used, hdenotes, -⟩ := (Graph.resolve_eq_some_iff hw.parentsEnd).1 hd
      exact hdenotes.outside hw (.quoted hm) ht (hused used hdenotes) hs d rfl

/-- The block of a quoted module. -/
def twinBody : List Statement := [.interfaceDecl "I" [] []]

/-- A quoted module, a namespace whose name has the same text, and an alias of the namespace. -/
def twinModules : List Statement :=
  [.moduleDecl (.quoted "x") twinBody,
    .moduleDecl (.dotted ["x"]) [.exported [.interfaceDecl "J" [] []]],
    .importAlias "y" "x"]

/-- The namespace is another declaration, and its interface is found through the alias. -/
theorem twinModules_isolated :
    (bound true twinModules).StatedIn twinModules none (.moduleDecl (.quoted "x") twinBody) ∧
      .declared ([] ++ ["x"]) .moduleDecl ∈ Statement.factsAll [] twinModules ∧
      ∃ m, (bound true twinModules).Isolated twinModules none "x" m ∧
        ∃ d, (bound true twinModules).resolve (.named "y.J" none) = some d ∧ d ≠ m ∧
          ¬(bound true twinModules).Encloses m d := by
  set g := bound true twinModules
  have hstated : g.StatedIn twinModules none (.moduleDecl (.quoted "x") twinBody) :=
    .file List.mem_cons_self
  obtain ⟨m, -, -, hm⟩ := bound_isolated true hstated
  have hdenotes : g.Denotes (.named "y.J" none) [4] 3 :=
    ⟨"y", ["J"], 4, ⟨rfl, _, rfl, by decide, by decide⟩, .file rfl,
      .down (.through (t := .named "x" none) rfl (show segments "x" = ["x"] by decide) (.file rfl) (.plain rfl))
        rfl (.plain rfl)⟩
  have hresolve : g.resolve (.named "y.J" none) = some 3 :=
    (Graph.resolve_eq_some_iff (bound_parentsEnd true twinModules)).2 ⟨[4], hdenotes, by decide⟩
  have haims : ∀ used, g.Denotes (.named "y.J" none) used 3 → ∀ a ∈ used, g.AimsUnquoted a := by
    intro used hused a ha t ht
    cases (hused.unique hdenotes).1
    cases List.mem_singleton.1 ha
    have htarget : (g.decl 4).importTarget = some (.named "x" none) := rfl
    cases ht.symm.trans htarget
    decide
  exact ⟨hstated, by decide, m, hm, 3, hresolve,
    hm.unseen _ 3 (by decide) (Graph.outside_file m) hresolve haims⟩

end Externs
