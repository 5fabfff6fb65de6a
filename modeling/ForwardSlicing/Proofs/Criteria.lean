import Mathlib.Data.List.Sort
import ForwardSlicing.Criteria
import ForwardSlicing.Proofs.Loading
/-!
# The calls of a context

A call is found in a context by the method it declares. `callsNaming_eq`: the calls that name a method are at the ascending
indices that declare it, each with its site. So `findCallsTo_exact`: they are refused exactly if two of them have one site,
and then with the first such site.
-/

namespace ForwardSlicing

/-! ## Declared methods and sites -/

namespace Context

/-- The instruction of a context at an index is a call that names the method. -/
def Declares (c : Context) (i : Nat) (m : Method) : Prop :=
  ∃ args result site, c.body[i]? = some (.invoke m args result site)

/-- The site that the call at an index states; a call that states none is at its own index. -/
def siteAt (c : Context) (i : Nat) : CallSite :=
  match c.body[i]? with
  | some (.invoke _ _ _ (some site)) => site
  | _ => .number i

/-- Another one of the calls has the site of the call at an index. -/
def SharesSite (c : Context) (calls : List Nat) (i : Nat) : Prop := ∃ j ∈ calls, j ≠ i ∧ c.siteAt j = c.siteAt i

variable {c : Context} {i : Nat} {m : Method}

theorem siteAt_eq {args : List Int} {result : Option Int} {site : Option CallSite}
    (h : c.body[i]? = some (.invoke m args result site)) : effectiveSite site i = c.siteAt i := by
  cases site with
  | none => simp [effectiveSite, siteAt, h]
  | some s => simp [effectiveSite, siteAt, h]

/-! ## Calls of a context -/

theorem one_lt_length_iff {indices : List Nat} (h : indices.Nodup) (hi : i ∈ indices) :
    1 < indices.length ↔ ∃ j ∈ indices, j ≠ i := by
  match indices, h with
  | [j], _ => simp [List.mem_singleton.1 hi]
  | j :: k :: rest, h =>
    have hne : j ≠ k := by
      rintro rfl
      simp at h
    simp only [List.length_cons, List.mem_cons]
    refine ⟨fun _ => ?_, fun _ => by omega⟩
    by_cases hj : j = i
    · exact ⟨k, .inr (.inl rfl), hj ▸ hne.symm⟩
    · exact ⟨j, .inl rfl, hj⟩

theorem mem_callsNaming {e : Nat × CallSite} : e ∈ c.callsNaming m ↔ c.Declares e.1 m ∧ e.2 = c.siteAt e.1 := by
  simp only [callsNaming, List.mem_filterMap]
  constructor
  · rintro ⟨⟨ins, j⟩, hj, h⟩
    rw [List.mem_zipIdx_iff_getElem?] at hj
    cases ins with
    | invoke target args result site =>
      dsimp only at h
      split at h
      case isTrue heq =>
        subst heq
        cases h
        exact ⟨⟨args, result, site, hj⟩, siteAt_eq hj⟩
      case isFalse => cases h
    | _ => cases h
  · rintro ⟨⟨args, result, site, hi⟩, hsite⟩
    refine ⟨(.invoke m args result site, e.1), List.mem_zipIdx_iff_getElem?.2 hi, ?_⟩
    rw [← siteAt_eq hi] at hsite
    simp [← hsite]

/-- What is kept of the members of a list is in order if it keeps the numbers that order them. -/
theorem pairwise_filterMap_of_number {α β : Type} {f : α → Option β} {a : α → Nat} {b : β → Nat} {xs : List α}
    (hf : ∀ e found, f e = some found → b found = a e) (h : xs.Pairwise fun e e' => a e < a e') :
    (xs.filterMap f).Pairwise fun found found' => b found < b found' := by
  apply List.pairwise_filterMap.2
  apply h.imp
  intro e e' hlt found hfound found' hfound'
  rwa [hf e found hfound, hf e' found' hfound']

/-- Calls are found in the order of their indices. -/
theorem callsNaming_ascending (c : Context) (m : Method) : (c.callsNaming m).Pairwise fun e e' => e.1 < e'.1 := by
  have hindices : c.body.zipIdx.Pairwise fun e e' => e.2 < e'.2 := by
    rw [← List.pairwise_map (f := Prod.snd) (R := (· < ·)), List.zipIdx_map_snd]
    exact List.pairwise_lt_range'
  refine pairwise_filterMap_of_number ?_ hindices
  -- what is kept of an instruction has the index of the instruction
  rintro ⟨ins, j⟩ found h
  cases ins with
  | invoke target args result site =>
    dsimp only at h
    split at h
    · cases h
      rfl
    · cases h
  | _ => cases h

section Indices
variable {indices : List Nat} (hascending : indices.Pairwise (· < ·)) (hmem : ∀ i, i ∈ indices ↔ c.Declares i m)
include hascending hmem

/-- The calls that name a method are at the indices that declare it, each with its site. -/
theorem callsNaming_eq : c.callsNaming m = indices.map fun i => (i, c.siteAt i) := by
  have hfst : (c.callsNaming m).map Prod.fst = indices := by
    refine List.Pairwise.eq_of_mem_iff (List.pairwise_map.2 (c.callsNaming_ascending m)) hascending fun i => ?_
    rw [hmem, List.mem_map]
    constructor
    · rintro ⟨e, he, rfl⟩
      exact (mem_callsNaming.1 he).1
    · intro h
      exact ⟨(i, c.siteAt i), mem_callsNaming.2 ⟨h, rfl⟩, rfl⟩
  rw [← hfst, List.map_map]
  refine (List.map_id _).symm.trans (List.map_congr_left fun e he => ?_)
  exact Prod.ext rfl (mem_callsNaming.1 he).2

theorem indicesAt_eq (site : CallSite) :
    indicesAt (c.callsNaming m) site = indices.filter fun i => c.siteAt i = site := by
  rw [callsNaming_eq hascending hmem, indicesAt, List.filter_map, List.map_map]
  exact List.map_id _

/-- There are several calls at the site of a call exactly if another call has its site. -/
theorem one_lt_indicesAt_iff (hi : i ∈ indices) :
    1 < (indicesAt (c.callsNaming m) (c.siteAt i)).length ↔ c.SharesSite indices i := by
  have hnodup : (indices.filter fun j => c.siteAt j = c.siteAt i).Nodup := (hascending.imp Nat.ne_of_lt).filter _
  rw [indicesAt_eq hascending hmem, one_lt_length_iff hnodup (List.mem_filter.2 ⟨hi, by simp⟩)]
  simp only [List.mem_filter, decide_eq_true_eq]
  exact exists_congr fun j => ⟨fun ⟨⟨hj, hsite⟩, hne⟩ => ⟨hj, hne, hsite⟩, fun ⟨hj, hne, hsite⟩ => ⟨⟨hj, hsite⟩, hne⟩⟩

/-- The site that is refused is that of the first call whose site another call has too. -/
theorem sharedSite?_eq_some {site : CallSite} (h : sharedSite? (c.callsNaming m) = some site) :
    ∃ first ∈ indices, c.siteAt first = site ∧ c.SharesSite indices first ∧
      ∀ i ∈ indices, c.SharesSite indices i → first ≤ i := by
  have hsites : (c.callsNaming m).map (·.2) = indices.map c.siteAt := by
    rw [callsNaming_eq hascending hmem, List.map_map]
    rfl
  rw [sharedSite?, hsites, List.find?_map, Option.map_eq_some_iff] at h
  obtain ⟨first, hfirst, rfl⟩ := h
  obtain ⟨hshared, before, after, hsplit, hbefore⟩ := List.find?_eq_some_iff_append.1 hfirst
  have hin : first ∈ indices := by simp [hsplit]
  refine ⟨first, hin, rfl, (one_lt_indicesAt_iff hascending hmem hin).1 (by simpa using hshared), fun i hi hother => ?_⟩
  -- a smaller index stands before, and its site would have been found
  by_contra hlt
  have hmem' : i ∈ before := by
    rw [hsplit, List.pairwise_append, List.pairwise_cons] at hascending
    rw [hsplit, List.mem_append, List.mem_cons] at hi
    rcases hi with hi | rfl | hi
    · exact hi
    · omega
    · have := hascending.2.1.1 i hi
      omega
  have hnone := hbefore i hmem'
  have hsome := (one_lt_indicesAt_iff hascending hmem hi).2 hother
  simp [hsome] at hnone

theorem sharedSite?_eq_none (h : sharedSite? (c.callsNaming m) = none) :
    ∀ i ∈ indices, ¬c.SharesSite indices i := by
  intro i hi hother
  have hmem' : (i, c.siteAt i) ∈ c.callsNaming m := mem_callsNaming.2 ⟨(hmem i).1 hi, rfl⟩
  have hsome := (one_lt_indicesAt_iff hascending hmem hi).2 hother
  have hnone := List.find?_eq_none.1 h (c.siteAt i) (List.mem_map.2 ⟨_, hmem', rfl⟩)
  simp [hsome] at hnone

/-- What may come of the calls that name a method. -/
theorem findCallsTo_cases :
    (indices = [] ∧ c.findCallsTo m = .error (.callSiteNotFound c m)) ∨
    (∃ first ∈ indices, c.SharesSite indices first ∧ (∀ i ∈ indices, c.SharesSite indices i → first ≤ i) ∧
      c.findCallsTo m =
        .error (.ambiguousCallSite c (c.siteAt first) (indices.filter fun i => c.siteAt i = c.siteAt first))) ∨
    (indices ≠ [] ∧ (∀ i ∈ indices, ¬c.SharesSite indices i) ∧
      c.findCallsTo m = .ok (indices.map fun i => .of c (.normal i))) := by
  have hcalls := callsNaming_eq hascending hmem
  by_cases hempty : indices = []
  · subst hempty
    exact .inl ⟨rfl, by simp [findCallsTo, hcalls]⟩
  · have htest : (c.callsNaming m).isEmpty = false := by simpa [hcalls] using hempty
    cases hshared : sharedSite? (c.callsNaming m) with
    | some site =>
      obtain ⟨first, hin, rfl, hshares, hleast⟩ := sharedSite?_eq_some hascending hmem hshared
      refine .inr (.inl ⟨first, hin, hshares, hleast, ?_⟩)
      simp [findCallsTo, htest, hshared, indicesAt_eq hascending hmem]
    | none =>
      refine .inr (.inr ⟨hempty, sharedSite?_eq_none hascending hmem hshared, ?_⟩)
      simp only [findCallsTo, htest, hshared, Bool.false_eq_true, if_false]
      rw [hcalls, List.map_map]
      rfl

end Indices

/-- Let the calls that name a method be at these indices, in ascending order. They are not found exactly if there are none.
They are ambiguous exactly if two of them have one site, and then the first index that shares its site tells which site is
refused, with all its indices. Otherwise the calls are found in order, and the first of them is the one found alone. -/
theorem findCallsTo_exact (c : Context) (m : Method) {indices : List Nat} (hascending : indices.Pairwise (· < ·))
    (hmem : ∀ i, i ∈ indices ↔ c.Declares i m) :
    (c.findCallsTo m = .error (.callSiteNotFound c m) ↔ indices = []) ∧
    ((∃ site shared, c.findCallsTo m = .error (.ambiguousCallSite c site shared)) ↔
      ∃ i ∈ indices, ∃ j ∈ indices, i ≠ j ∧ c.siteAt i = c.siteAt j) ∧
    (∀ site shared, c.findCallsTo m = .error (.ambiguousCallSite c site shared) →
      shared = indices.filter (fun i => c.siteAt i = site) ∧
      ∃ first ∈ shared, c.SharesSite indices first ∧ ∀ i ∈ indices, c.SharesSite indices i → first ≤ i) ∧
    (indices ≠ [] → (∀ i ∈ indices, ∀ j ∈ indices, i ≠ j → c.siteAt i ≠ c.siteAt j) →
      c.findCallsTo m = .ok (indices.map fun i => .of c (.normal i)) ∧
      ∃ first rest, indices = first :: rest ∧ c.findCallSite m = .ok (.of c (.normal first))) ∧
    ∀ e, c.findCallsTo m = .error e → c.findCallSite m = .error e := by
  have hsite : ∀ e, c.findCallsTo m = .error e → c.findCallSite m = .error e := by
    intro e he
    rw [findCallSite, he]
    rfl
  rcases findCallsTo_cases hascending hmem with
    ⟨rfl, hfind⟩ | ⟨first, hfirst, hshares, hleast, hfind⟩ | ⟨hne, hnone, hfind⟩
  · simp [hfind, findCallSite, bind, Except.bind]
  · obtain ⟨j, hj, hne, hsame⟩ := hshares
    refine ⟨?_, ?_, fun site shared h => ?_, fun _ hdiffer => ?_, hsite⟩
    · rw [hfind]
      refine ⟨fun h => (by cases h), fun h => ?_⟩
      rw [h] at hfirst
      cases hfirst
    · exact ⟨fun _ => ⟨j, hj, first, hfirst, hne, hsame⟩, fun _ => ⟨_, _, hfind⟩⟩
    · cases hfind.symm.trans h
      exact ⟨rfl, first, by simp [hfirst], ⟨j, hj, hne, hsame⟩, hleast⟩
    · exact absurd hsame (hdiffer j hj first hfirst hne)
  · refine ⟨?_, ?_, fun site shared h => ?_, fun _ _ => ⟨hfind, ?_⟩, hsite⟩
    · rw [hfind]
      exact ⟨fun h => (by cases h), fun h => absurd h hne⟩
    · rw [hfind]
      refine ⟨fun ⟨_, _, h⟩ => (by cases h), fun ⟨i, hi, j, hj, hij, hsame⟩ => ?_⟩
      exact absurd ⟨i, hi, hij, hsame⟩ (hnone j hj)
    · cases hfind.symm.trans h
    · obtain ⟨first, rest, rfl⟩ := List.exists_cons_of_ne_nil hne
      refine ⟨first, rest, rfl, ?_⟩
      rw [findCallSite, hfind]
      rfl

end Context

namespace Sample

/-- A method that is called at several sites. -/
def logMethod : Method := ⟨"Box", "log", ⟨["I"], "V"⟩⟩

/-- Two calls at site 2, of which one states the index of the other; a call of another method that states it too, and a call
whose site is a text. -/
def sited : Context where
  procedure := ⟨⟨"Box", "sited", ⟨[], "V"⟩⟩, 0, [.invoke logMethod [1] none (some (.number 2)),
    .invoke walkMethod [1] (some 2) (some (.number 2)), .invoke logMethod [2] none none,
    .invoke logMethod [2] none (some (.name "2"))]⟩
  name := "Everywhere"

end Sample

/-- The text `2` is no number, so two of the three calls share a site; the call of the other method does not count. -/
theorem Context.findCallsTo_exact_sited :
    Sample.sited.findCallsTo Sample.logMethod = .error (.ambiguousCallSite Sample.sited (.number 2) [0, 2]) ∧
    Sample.sited.findCallSite Sample.logMethod = .error (.ambiguousCallSite Sample.sited (.number 2) [0, 2]) ∧
    Sample.sited.findCallsTo Sample.walkMethod = .ok [.of Sample.sited (.normal 1)] ∧
    Sample.sited.findCallSite Sample.walkMethod = .ok (.of Sample.sited (.normal 1)) := by
  have hlog : ∀ i, i ∈ [0, 2, 3] ↔ Sample.sited.Declares i Sample.logMethod := by
    rintro (_ | _ | _ | _ | i) <;> simp [Declares, Sample.sited, Context.body, Sample.logMethod, Sample.walkMethod]
  have hwalk : ∀ i, i ∈ [1] ↔ Sample.sited.Declares i Sample.walkMethod := by
    rintro (_ | _ | _ | _ | i) <;> simp [Declares, Sample.sited, Context.body, Sample.logMethod, Sample.walkMethod]
  obtain ⟨-, hambiguous, hreported, -, hsite⟩ := findCallsTo_exact Sample.sited Sample.logMethod (by decide) hlog
  obtain ⟨site, shared, hfind⟩ := hambiguous.2 ⟨0, by decide, 2, by decide, by decide, by decide⟩
  obtain ⟨hshared, first, hfirst, -, hleast⟩ := hreported site shared hfind
  obtain ⟨-, -, -, hfound, -⟩ := findCallsTo_exact Sample.sited Sample.walkMethod (by decide) hwalk
  obtain ⟨hcalls, first', rest, hindices, hone⟩ := hfound (by decide) (by decide)
  -- the first index shares its site, so it is the one that is reported
  have hzero := hleast 0 (by decide) ⟨2, by decide, by decide, by decide⟩
  obtain rfl : first = 0 := by omega
  rw [hshared, List.mem_filter, decide_eq_true_eq] at hfirst
  obtain rfl : .number 2 = site := hfirst.2
  obtain rfl : shared = [0, 2] := hshared.trans (by decide)
  cases hindices
  exact ⟨hfind, hsite _ hfind, hcalls, hone⟩

end ForwardSlicing
