import GraphQL.Proofs.Avoiding
import GraphQL.Proofs.Fragment.Spread

/-!
# Fragments — documents without fragment problems

The search for a way back to a fragment follows every name at most once. It
finds one whenever there is one (`findReturn_ne_none`), so every name that
leads back to itself is reported. A document without fragment problems is
therefore acyclic, and every spread in it has a fragment.
-/

namespace GraphQL

open Relation

namespace FragmentTable

variable {table : FragmentTable} {root : String} {path : List String}

/-- A fragment without spreads has no way back to it. -/
theorem cycles_cons_of_leaf {fragment : FragmentDefinition}
    (h : Selection.spreadsOfList fragment.selections = []) (reported : List String)
    (fragments : List FragmentDefinition) :
    table.cycles reported (fragment :: fragments) = table.cycles reported fragments := by
  rw [cycles, h, findReturn]
  exact ite_self _

/-- The equation of the search: a spread of the root ends it, any other spread
is searched first if its name is new. -/
theorem findReturn_cons (spread : FragmentSpread) (spreads : List FragmentSpread) :
    table.findReturn root path (spread :: spreads) =
      if spread.name.value = root then some spread.pos
      else Option.or
        (if spread.name.value ∈ path then none
          else (table.get? spread.name.value).bind fun fragment =>
            table.findReturn root (spread.name.value :: path)
              (Selection.spreadsOfList fragment.selections))
        (table.findReturn root path spreads) := by
  rw [findReturn]
  split
  · rfl
  · split
    · simp
    · split
      · rename_i hf
        simp [hf]
      · rename_i hf
        simp [hf]

theorem Spreads.exists_spread {name other : String} {fragment : FragmentDefinition}
    (h : table.Spreads name other) (hf : table.get? name = some fragment) :
    ∃ spread ∈ Selection.spreadsOfList fragment.selections, spread.name.value = other := by
  obtain ⟨found, hg, hs⟩ := h
  cases hf.symm.trans hg
  exact hs

/-- A way on from a name's fragment can start at a spread in it and avoid the name. -/
theorem Spreads.exists_avoiding {name next : String} {fragment : FragmentDefinition}
    (h : table.Spreads name next) (hf : table.get? name = some fragment)
    (hrest : ReflTransGen (Avoiding table.Spreads some path) next root) :
    ∃ spread ∈ Selection.spreadsOfList fragment.selections,
      ReflTransGen (Avoiding table.Spreads some (name :: path)) spread.name.value root := by
  rcases avoiding_cons_or name hrest with hd | ⟨b, d, hb, hs, hd⟩
  · obtain ⟨spread, hm, rfl⟩ := h.exists_spread hf
    exact ⟨spread, hm, hd⟩
  · -- behind its last use of the name
    cases hb
    obtain ⟨spread, hm, rfl⟩ := hs.exists_spread hf
    exact ⟨spread, hm, hd⟩

/-- The search is complete: if a spread leads to the root along names that are
not being expanded, the search ends with a position. -/
theorem findReturn_ne_none {spreads : List FragmentSpread} {spread : FragmentSpread}
    (hm : spread ∈ spreads)
    (h : ReflTransGen (Avoiding table.Spreads some path) spread.name.value root) :
    table.findReturn root path spreads ≠ none := by
  induction hn : table.unvisited path using Nat.strongRecOn generalizing path spreads spread with
  | _ n ihn =>
    subst hn
    induction spreads with
    | nil => cases hm
    | cons first spreads ih =>
      rw [findReturn_cons]
      split
      · simp
      · rename_i hr
        rw [Ne, Option.or_eq_none_iff]
        rintro ⟨hnone, hothers⟩
        rcases List.mem_cons.1 hm with rfl | hm
        · -- the way starts at the first spread, so its name is new and has a fragment
          rcases ReflTransGen.cases_head h with rfl | ⟨next, hstep, hrest⟩
          · exact absurd rfl hr
          · have hp : spread.name.value ∉ path := hstep.2 _ rfl
            obtain ⟨fragment, hf, -⟩ := hstep.1
            have hlt := unvisited_cons_lt hf hp
            rw [if_neg hp, hf, Option.bind_some] at hnone
            obtain ⟨inner, hi, hd⟩ := hstep.1.exists_avoiding hf hrest
            exact ihn _ hlt hi hd rfl hnone
        · exact ih hm hothers

/-- A fragment that leads back to itself has a spread that the search returns. -/
theorem findReturn_ne_none_of_cycle {name : String} {fragment : FragmentDefinition}
    (hf : table.get? name = some fragment) (h : TransGen table.Spreads name name) :
    table.findReturn name [name] (Selection.spreadsOfList fragment.selections) ≠ none := by
  obtain ⟨next, hstep, hrest⟩ := TransGen.head'_iff.1 h
  rw [← avoiding_nil table.Spreads some] at hrest
  obtain ⟨spread, hm, hd⟩ := hstep.exists_avoiding hf hrest
  exact findReturn_ne_none hm hd

/-- A name whose search returns is reported, unless it was reported before. -/
theorem exists_cycle_mem {fragments : List FragmentDefinition} {fragment : FragmentDefinition}
    {reported : List String} (hm : fragment ∈ fragments) (hn : fragment.name.value ∉ reported)
    (hr : table.findReturn fragment.name.value [fragment.name.value]
      (Selection.spreadsOfList fragment.selections) ≠ none) :
    ∃ p, cycle fragment.name.value p ∈ table.cycles reported fragments := by
  induction fragments generalizing reported with
  | nil => cases hm
  | cons first fragments ih =>
    rw [cycles]
    by_cases hs : first.name.value = fragment.name.value
    · rw [hs, if_neg (by simpa using hn)]
      -- a definition of the name: it is reported here, or its search goes on
      cases hf : table.findReturn fragment.name.value [fragment.name.value]
          (Selection.spreadsOfList first.selections) with
      | some p => exact ⟨p, List.mem_cons_self⟩
      | none =>
        rcases List.mem_cons.1 hm with rfl | hm
        · exact absurd hf hr
        · exact ih hm hn
    · have hm : fragment ∈ fragments := by
        rcases List.mem_cons.1 hm with rfl | hm
        · exact absurd rfl hs
        · exact hm
      -- a definition of another name adds nothing but its own name to what is reported
      split
      · exact ih hm hn
      · split
        · obtain ⟨p, hp⟩ := ih hm (List.not_mem_cons_of_ne_of_not_mem (Ne.symm hs) hn)
          exact ⟨p, List.mem_cons_of_mem _ hp⟩
        · exact ih hm hn

/-- **A name that leads back to itself is reported.** -/
theorem exists_cycle_mem_of_transGen {name : String} (h : TransGen table.Spreads name name) :
    ∃ p, cycle name p ∈ table.cycles [] table.definitions := by
  obtain ⟨_, ⟨fragment, hf, -⟩, -⟩ := TransGen.head'_iff.1 h
  have hn := name_of_get? hf
  subst hn
  exact exists_cycle_mem (List.mem_of_find?_eq_some hf) (by simp)
    (findReturn_ne_none_of_cycle hf h)

theorem unknown_mem_unknownSpreads {selections : List Selection} {spread : FragmentSpread}
    (hs : spread ∈ Selection.spreadsOfList selections)
    (hf : table.get? spread.name.value = none) : unknown spread ∈ table.unknownSpreads selections :=
  List.mem_map_of_mem (List.mem_filter.2 ⟨hs, by simp [hf]⟩)

end FragmentTable

namespace Document

variable {document : Document}

/-- The spread stands in an operation or in a fragment of the document. -/
def HasSpread (document : Document) (spread : FragmentSpread) : Prop :=
  (∃ operation ∈ document.operations, spread ∈ Selection.spreadsOfList operation.selections) ∨
    ∃ fragment ∈ document.fragments, spread ∈ Selection.spreadsOfList fragment.selections

theorem cycle_mem_fragmentProblems {name : String}
    (h : TransGen (FragmentTable.ofDocument document).Spreads name name) :
    ∃ p, FragmentTable.cycle name p ∈ document.fragmentProblems := by
  obtain ⟨p, hp⟩ := FragmentTable.exists_cycle_mem_of_transGen h
  exact ⟨p, List.mem_append_right _ hp⟩

theorem unknown_mem_fragmentProblems {spread : FragmentSpread} (hs : document.HasSpread spread)
    (hf : (FragmentTable.ofDocument document).get? spread.name.value = none) :
    FragmentTable.unknown spread ∈ document.fragmentProblems := by
  refine List.mem_append_left _ ?_
  rcases hs with ⟨operation, ho, hs⟩ | ⟨fragment, hm, hs⟩
  · refine List.mem_append_left _ (List.mem_append_right _ ?_)
    exact List.mem_flatMap.2 ⟨operation, ho, FragmentTable.unknown_mem_unknownSpreads hs hf⟩
  · refine List.mem_append_right _ ?_
    exact List.mem_flatMap.2 ⟨fragment, hm, FragmentTable.unknown_mem_unknownSpreads hs hf⟩

/-- **A document without fragment problems is acyclic.** -/
theorem acyclic_of_fragmentProblems_eq_nil (h : document.fragmentProblems = []) : document.Acyclic := by
  intro name hc
  obtain ⟨p, hp⟩ := cycle_mem_fragmentProblems hc
  rw [h] at hp
  cases hp

/-- In a document without fragment problems every spread has a fragment. -/
theorem exists_fragment_of_fragmentProblems_eq_nil (h : document.fragmentProblems = [])
    {spread : FragmentSpread} (hs : document.HasSpread spread) :
    ∃ fragment, (FragmentTable.ofDocument document).get? spread.name.value = some fragment := by
  rw [← Option.ne_none_iff_exists']
  intro hn
  have hp := unknown_mem_fragmentProblems hs hn
  rw [h] at hp
  cases hp

end Document

end GraphQL
