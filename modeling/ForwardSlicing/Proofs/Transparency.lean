import ForwardSlicing.Proofs.Slice
/-!
# Answers do not depend on the index

A query is answered from the tables of an index, and builds those that are missing. `Transparent` says of a query that it
answers from every sound index what it answers from an empty one, with the same failure if it fails, and that it leaves a
sound index. This holds of queries about any statement, whether it exists or not (`transparent_successors`), if the nodes
of one method carry one body and a context that equals a node is that node (`Known`).

A search takes its fuel from the tables as well. `expand_eq`: the fuel makes no difference, because what a search can find
is less than it, so whole slices are transparent too (`transparent_forwardSlice`, `transparent_forwardSlices`).
-/

namespace ForwardSlicing.DependenceGraph

/-- The query answers from every sound index as from an empty one, and leaves a sound index. -/
def Transparent (g : DependenceGraph) {α : Type} (query : Index → Answer α) : Prop :=
  ∀ x, x.Sound g.calls → (query x).1 = (query {}).1 ∧ (query x).2.Sound g.calls

/-- A context that equals a node is that node. -/
def Known (g : DependenceGraph) (s : Statement) : Prop :=
  g.calls.contains s.context = true → s.context ∈ g.calls.nodes

/-- Asks, and goes on with the answer. -/
def followedBy {α β : Type} (query : Index → Answer α) (next : α → Index → Answer β) (x : Index) : Answer β :=
  match query x with
  | (.error e, x) => (.error e, x)
  | (.ok a, x) => next a x

section Transparent
variable {g : DependenceGraph} {α β : Type}

theorem transparent_pure (answer : Except Failure α) : g.Transparent fun x => (answer, x) := fun _ hx => ⟨rfl, hx⟩

theorem Transparent.followedBy {query : Index → Answer α} {next : α → Index → Answer β} (hq : g.Transparent query)
    (hn : ∀ a, (query {}).1 = .ok a → g.Transparent (next a)) : g.Transparent (followedBy query next) := by
  intro x hx
  obtain ⟨hanswer, hsound⟩ := hq x hx
  obtain ⟨-, hsound₀⟩ := hq {} (Index.sound_empty g.calls)
  unfold DependenceGraph.followedBy
  cases hx' : query x with
  | mk out x₁ =>
    cases h0 : query {} with
    | mk out₀ x₀ =>
      rw [hx', h0] at hanswer
      rw [hx'] at hsound
      rw [h0] at hsound₀
      obtain rfl : out = out₀ := hanswer
      cases out with
      | error e => exact ⟨rfl, hsound⟩
      | ok a =>
        have hnext := hn a (by rw [h0])
        exact ⟨(hnext x₁ hsound).1.trans (hnext x₀ hsound₀).1.symm, (hnext x₁ hsound).2⟩

end Transparent

/-! ## Successors -/

section Successors
variable {g : DependenceGraph} {s : Statement} (level : Level)

/-- The answer to a data query depends on one table and, for a field write that follows the heap, on the heap reads. -/
theorem dataAnswer_congr {x y : Index} (ht : x.table s.context.procedure = y.table s.context.procedure)
    (hr : ∀ i base field value, s.point = .normal i → s.context.body[i]? = some (.putField base field value) →
      level.heap = true → x.reads = y.reads) : g.dataAnswer level s x = g.dataAnswer level s y := by
  obtain ⟨c, p, spelling⟩ := s
  cases p with
  | normal i =>
    simp only [dataAnswer, ht]
    cases hi : c.body[i]? with
    | none => rfl
    | some ins =>
      cases ins with
      | putField base field value =>
        cases hl : level.heap with
        | false => rfl
        | true => simp only [HeapLocation.written?, if_true, readersOf, hr i base field value rfl hi hl]
      | _ => rfl
  | _ => simp only [dataAnswer, ht]

variable (hone : OneBody {c | c ∈ g.calls.nodes}) (hs : g.Known s)
include hone hs

theorem transparent_dataSuccessors : g.Transparent (g.dataSuccessors level s) := by
  intro x hx
  have hempty := Index.sound_empty g.calls
  unfold dataSuccessors
  cases hcheck : g.calls.check s.context with
  | error e => exact ⟨rfl, hx⟩
  | ok _ =>
    have hnode := hs (CallGraph.contains_of_check hcheck)
    have hi := indexForData_sound hone hx hnode level
    have hi₀ := indexForData_sound hone hempty hnode level
    cases hl : level.enabled with
    | false => exact ⟨rfl, hx⟩
    | true =>
      simp only [if_true]
      refine ⟨congrArg _ (dataAnswer_congr level ?_ ?_), hi⟩
      · rw [hi.table_eq hnode, hi₀.table_eq hnode]
      · intro i base field value hp hins hheap
        obtain ⟨c, p, spelling⟩ := s
        obtain rfl : p = .normal i := hp
        exact (reads_indexForData hx hins hheap).trans (reads_indexForData hempty hins hheap).symm

theorem transparent_controlSuccessors : g.Transparent (g.controlSuccessors level s) := by
  intro x hx
  unfold controlSuccessors
  cases hcheck : g.calls.check s.context with
  | error e => exact ⟨rfl, hx⟩
  | ok _ =>
    have hnode := hs (CallGraph.contains_of_check hcheck)
    have hi := indexForControl_sound hone hx hnode
    have hi₀ := indexForControl_sound hone (Index.sound_empty g.calls) hnode
    cases hl : level.enabled with
    | false => exact ⟨rfl, hx⟩
    | true => simp only [if_true, controlAnswer, hi.table_eq hnode, hi₀.table_eq hnode, hi, and_true]

variable (data control : Level)

theorem transparent_bothSuccessors : g.Transparent (g.bothSuccessors data control s) := by
  have heq : g.bothSuccessors data control s = followedBy (g.dataSuccessors data s) fun ds =>
      followedBy (g.controlSuccessors control s) fun cs x => (.ok (ds, cs), x) := by
    funext x
    unfold bothSuccessors followedBy
    rcases g.dataSuccessors data s x with ⟨_ | ds, y⟩
    · rfl
    · dsimp only
      rcases g.controlSuccessors control s y with ⟨_ | cs, z⟩ <;> rfl
  rw [heq]
  exact (transparent_dataSuccessors data hone hs).followedBy fun ds _ =>
    (transparent_controlSuccessors control hone hs).followedBy fun cs _ => transparent_pure _

theorem transparent_successors : g.Transparent (g.successors data control s) := by
  have heq : g.successors data control s = followedBy (g.bothSuccessors data control s) fun both x =>
      (.ok (distinct (both.1 ++ both.2)), x) := by
    funext x
    unfold successors followedBy
    rcases g.bothSuccessors data control s x with ⟨_ | both, y⟩ <;> rfl
  rw [heq]
  exact (transparent_bothSuccessors hone hs data control).followedBy fun both _ => transparent_pure _

theorem transparent_successorEdges : g.Transparent (g.successorEdges data control s) := by
  have heq : g.successorEdges data control s = followedBy (g.bothSuccessors data control s) fun both x =>
      (.ok (both.1.map (·, .data) ++ both.2.map (·, .control)), x) := by
    funext x
    unfold successorEdges followedBy
    rcases g.bothSuccessors data control s x with ⟨_ | both, y⟩ <;> rfl
  rw [heq]
  exact (transparent_bothSuccessors hone hs data control).followedBy fun both _ => transparent_pure _

end Successors

/-! ## What a search can find -/

section Reach
variable {g : DependenceGraph} {S : Set Context} (hS : OneBody S) (hg : g.calls.Over S)

/-- A point that exists, in a node, with positions that are whole: the statement equals one of the call graph. -/
structure Placed (g : DependenceGraph) (t : Statement) : Prop where
  node : t.context ∈ g.calls.nodes
  point : t.point.In t.context
  whole : t.fractions = (0, 0)

theorem placed_of_holds {t : Statement} (h : g.calls.Holds t) : g.Placed t where
  node := h.node
  point := h.point
  whole := by rw [Statement.fractions, h.plain]; rfl

/-- The value that a call returns, whichever way its site was given. -/
theorem placed_returned {k : Invocation} (hc : k.caller ∈ g.calls.nodes) (hcall : k.caller.HasCall k.site) :
    g.Placed k.returned where
  node := hc
  point := hcall
  whole := by
    unfold Invocation.returned Invocation.siteJson
    split <;> rfl

/-- The parameter of a context that an argument is passed to, at the position as it was given for the argument. -/
def passedTo (s : Statement) (d : Context) : Statement :=
  ⟨d, .param (s.point.argument?.getD 0), { index := s.spelling.argument }⟩

/-- The second statement equals one of the call graph, or is a parameter that the first one is passed to. -/
def LeadsTo (g : DependenceGraph) (s t : Statement) : Prop :=
  g.Placed t ∨ ∃ d ∈ g.calls.nodes, ∃ i k, s.point = .argument i k ∧ k < d.procedure.params ∧ t = passedTo s d

section Uses
variable {c : Context} (hc : c ∈ g.calls.nodes) {t : Statement}
include hc

theorem holds_of_uses {vs : List Int} {ls : List (List Statement)}
    (h : vs.mapM (useStatements c.procedure c) = .ok ls) (ht : t ∈ ls.flatten) : g.calls.Holds t := by
  obtain ⟨l, hl, ht⟩ := List.mem_flatten.1 ht
  obtain ⟨v, -, hv⟩ := mem_of_mapM h l hl
  obtain ⟨l', hl', hmem⟩ := useStatements_spec c v
  cases hv.symm.trans hl'
  obtain ⟨p, hp, rfl⟩ := (hmem t).1 ht
  exact .of hc hp.in

theorem holds_of_executed {ns : List FlowNode} {ls : List (List Statement)} (h : ns.mapM (executedWith c) = .ok ls)
    (ht : t ∈ ls.flatten) : g.calls.Holds t := by
  obtain ⟨l, hl, ht⟩ := List.mem_flatten.1 ht
  obtain ⟨n, -, hn⟩ := mem_of_mapM h l hl
  -- with a node that is no instruction of the body the answer would have failed
  obtain ⟨j, hlt, rfl⟩ : ∃ j < c.body.length, n = .instr j := by
    cases n with
    | instr j =>
      refine ⟨j, ?_, rfl⟩
      by_contra hge
      simp [executedWith, nodeStatement, List.getElem?_eq_none (Nat.le_of_not_lt hge), bind, Except.bind] at hn
    | _ => cases hn
  obtain ⟨l', hl', hmem⟩ := executedWith_spec hlt
  cases hn.symm.trans hl'
  obtain ⟨p, hp, rfl⟩ := (hmem t).1 ht
  exact .of hc hp.in

end Uses

theorem holds_of_readers {x : Index} (hx : x.Sound g.calls) {written : HeapLocation} {t : Statement}
    (ht : t ∈ g.readersOf x written) : g.calls.Holds t := by
  obtain ⟨r, hr, rfl⟩ := List.mem_map.1 ht
  have hr := (List.mem_filter.1 hr).1
  cases hreads : x.reads with
  | none => simp [hreads] at hr
  | some rs =>
    rw [hreads, Option.getD_some, hx.reads rs hreads] at hr
    obtain ⟨d, hd, hr⟩ := List.mem_flatMap.1 hr
    obtain ⟨j, result, base, field, hj, rfl⟩ := HeapRead.mem_ofContext.1 hr
    exact .of hd (List.getElem?_eq_some_iff.1 hj).1

variable {s t : Statement} {x : Index} (hx : x.Sound g.calls) (hc : s.context ∈ g.calls.nodes) {level : Level}
  {l : List Statement}
include hS hg hx hc

theorem leadsTo_of_dataAnswer (h : g.dataAnswer level s x = .ok l) (ht : t ∈ l) : g.LeadsTo s t := by
  obtain ⟨c, p, spelling⟩ := s
  have htable : (x.table c.procedure).procedure = c.procedure := by rw [hx.table_eq hc]; rfl
  have hcontains : g.calls.contains c = true := CallGraph.contains_of_mem hc
  have htargets := CallGraph.targets_of_contains hcontains
  cases p with
  | normal i =>
    cases hi : c.body[i]? with
    | none => simp [dataAnswer, hi] at h
    | some ins =>
      cases hn : ins.isInvoke with
      | true =>
        cases ins with
        | invoke target args result site =>
          simp only [dataAnswer, hi, Except.ok.injEq] at h
          simp [← h] at ht
        | _ => cases hn
      | false =>
        have heq : g.dataAnswer level ⟨c, .normal i, spelling⟩ x = _ := dataAnswer_normal_eq hi hn htable
        rw [heq, bind_eq_ok] at h
        obtain ⟨uses, huses, h⟩ := h
        cases h
        rcases List.mem_append.1 ht with ht | ht
        · exact .inl (placed_of_holds (holds_of_uses hc huses ht))
        · unfold readersAfter at ht
          split at ht
          · split at ht
            · exact .inl (placed_of_holds (holds_of_readers hx ht))
            · cases ht
          · cases ht
  | returned i =>
    simp only [dataAnswer, htable] at h
    split at h
    case h_1 target args result site hi =>
      simp only [bind_eq_ok, calleeParams, htargets i] at h
      obtain ⟨uses, huses, params, ⟨_, ⟨⟩, hparams⟩, h⟩ := h
      cases h
      cases hparams
      rcases List.mem_append.1 ht with ht | ht
      · exact .inl (placed_of_holds (holds_of_uses hc huses ht))
      · simp only [List.mem_flatMap, List.mem_map, List.mem_range] at ht
        obtain ⟨d, hd, k, hk, rfl⟩ := ht
        have hparam : k < d.procedure.params := Nat.lt_of_lt_of_le hk (Nat.min_le_right _ _)
        exact .inl (placed_of_holds (.of (hg.mem_of_calleesAt hd) hparam))
    case h_2 => cases h
    case h_3 => cases h
  | argument i k =>
    simp only [dataAnswer, htargets i, bind_eq_ok] at h
    obtain ⟨_, ⟨⟩, h⟩ := h
    cases h
    obtain ⟨d, hd, rfl⟩ := List.mem_map.1 ht
    obtain ⟨hd, hk⟩ := List.mem_filter.1 hd
    exact .inr ⟨d, hg.mem_of_calleesAt hd, i, k, rfl, of_decide_eq_true hk, rfl⟩
  | param k =>
    simp only [dataAnswer, htable, bind_eq_ok] at h
    obtain ⟨uses, huses, h⟩ := h
    cases h
    exact .inl (placed_of_holds (holds_of_uses hc huses ht))
  | exit =>
    simp only [dataAnswer, CallGraph.callSitesTo_of_contains hcontains, bind_eq_ok] at h
    obtain ⟨_, ⟨⟩, returns, hreturns, h⟩ := h
    cases h
    obtain ⟨l, hl, ht⟩ := List.mem_flatten.1 ht
    obtain ⟨k, hk, hl⟩ := mem_of_mapM hreturns l hl
    obtain ⟨hcaller, hcall⟩ := hg.call_of_callsTo hS.exactOn hk
    obtain ⟨l', hl', hmem⟩ := returnedTo_spec hcall
    cases hl.symm.trans hl'
    obtain ⟨-, -, -, -, -, rfl⟩ := (hmem t).1 ht
    exact .inl (placed_returned hcaller hcall)
  | entry =>
    cases h
    cases ht

omit hS hx in
theorem holds_of_controlAnswer (h : g.controlAnswer level s x = .ok l) (ht : t ∈ l) : g.calls.Holds t := by
  obtain ⟨c, p, spelling⟩ := s
  cases p with
  | entry =>
    simp only [controlAnswer, bind_eq_ok] at h
    obtain ⟨ls, hls, h⟩ := h
    cases h
    rcases List.mem_append.1 ht with ht | ht
    · obtain ⟨k, hk, rfl⟩ := List.mem_map.1 ht
      exact .of hc (List.mem_range.1 hk)
    · exact holds_of_executed hc hls ht
  | normal i =>
    simp only [controlAnswer, bind_eq_ok] at h
    obtain ⟨entered, hentered, ls, hls, h⟩ := h
    cases h
    rcases List.mem_append.1 ht with ht | ht
    · obtain ⟨d, hd, rfl⟩ := List.mem_map.1 ht
      unfold enteredFrom at hentered
      split at hentered
      · rw [CallGraph.targets_of_contains (CallGraph.contains_of_mem hc), Except.ok.injEq] at hentered
        rw [← hentered] at hd
        exact .of (hg.mem_of_calleesAt hd) trivial
      · cases hentered
        cases hd
    · exact holds_of_executed hc hls ht
  | _ =>
    cases h
    cases ht

theorem leadsTo_of_successors {data control : Level} (h : (g.successors data control s x).1 = .ok l) (ht : t ∈ l) :
    g.LeadsTo s t := by
  have hi := indexForData_sound (hS.mono hg.node) hx hc data
  -- an answer of either kind comes from the tables, or is empty
  have hdata : ∀ ds, (g.dataSuccessors data s x).1 = .ok ds → t ∈ ds → g.LeadsTo s t := by
    intro ds hds htd
    simp only [dataSuccessors, CallGraph.check_of_mem hc] at hds
    split at hds
    · obtain ⟨l, hl, rfl⟩ := map_eq_ok.1 hds
      exact leadsTo_of_dataAnswer hS hg hi hc hl (mem_of_mem_distinct htd)
    · cases hds
      cases htd
  have hcontrol : ∀ y cs, (g.controlSuccessors control s y).1 = .ok cs → t ∈ cs → g.calls.Holds t := by
    intro y cs hcs htc
    simp only [controlSuccessors, CallGraph.check_of_mem hc] at hcs
    split at hcs
    · obtain ⟨l, hl, rfl⟩ := map_eq_ok.1 hcs
      exact holds_of_controlAnswer hg hc hl (mem_of_mem_distinct htc)
    · cases hcs
      cases htc
  simp only [successors, bothSuccessors] at h
  cases hd : g.dataSuccessors data s x with
  | mk out y =>
    cases out with
    | error e => simp [hd] at h
    | ok ds =>
      cases hk : g.controlSuccessors control s y with
      | mk out z =>
        cases out with
        | error e => simp [hd, hk] at h
        | ok cs =>
          simp only [hd, hk, Except.ok.injEq] at h
          rw [← h] at ht
          rcases List.mem_append.1 (mem_of_mem_distinct ht) with ht | ht
          · exact hdata ds (by rw [hd]) ht
          · exact .inl (placed_of_holds (hcontrol y cs (by rw [hk]) ht))

end Reach

/-! ## Searches -/

section Searches
variable (g : DependenceGraph) (seeds : List Statement)

/-- What a search from seeds can find: what equals statements of the call graph, the seeds, and the parameters that seeds
are passed to. -/
def InReach (t : Statement) : Prop :=
  g.Placed t ∨ ∃ s ∈ seeds, t = s ∨ ∃ d ∈ g.calls.nodes, t = passedTo s d

/-- A search from seeds under way: it has found no statement twice, and nothing that is out of reach. -/
structure UnderWay (pending seen : List Statement) : Prop where
  apart : Apart seen
  seen : ∀ t ∈ seen, g.InReach seeds t
  pending : ∀ t ∈ pending, g.InReach seeds t

/-- The number of statements that a search may still expand, if it finds no more than `n`. -/
def remaining (n : Nat) (pending seen : List Statement) : Nat := pending.length + (n - seen.length)

/-- A search from seeds finds no more than `n` statements. -/
def Room (n : Nat) : Prop := ∀ pending seen, g.UnderWay seeds pending seen → seen.length ≤ n

variable {g seeds}

theorem InReach.node (hseeds : ∀ s ∈ seeds, s.context ∈ g.calls.nodes) {t : Statement} (h : g.InReach seeds t) :
    t.context ∈ g.calls.nodes := by
  rcases h with h | ⟨s, hs, rfl | ⟨d, hd, rfl⟩⟩
  · exact h.node
  · exact hseeds t hs
  · exact hd

theorem InReach.leadsTo {s t : Statement} (hs : g.InReach seeds s) (h : g.LeadsTo s t) : g.InReach seeds t := by
  rcases h with h | ⟨d, hd, i, k, hp, hk, rfl⟩
  · exact .inl h
  rcases hs with hs | ⟨s', hs', rfl | ⟨d', -, rfl⟩⟩
  -- an argument whose position is whole is passed at that position
  · refine .inl ⟨hd, ?_, ?_⟩
    · simpa [passedTo, hp, Point.argument?, Point.In] using hk
    · exact Prod.ext (congrArg Prod.snd hs.whole) rfl
  · exact .inr ⟨s, hs', .inr ⟨d, hd, rfl⟩⟩
  · cases hp

theorem underWay_start (seeds : List Statement) : g.UnderWay seeds (distinct seeds) (distinct seeds) := by
  have hreach : ∀ t ∈ distinct seeds, g.InReach seeds t := fun t ht => .inr ⟨t, mem_of_mem_distinct ht, .inl rfl⟩
  exact ⟨apart_distinct seeds, hreach, hreach⟩

section Step
variable {s : Statement} {pending seen next : List Statement} (h : g.UnderWay seeds (s :: pending) seen)
  (hnext : ∀ t ∈ next, g.InReach seeds t)
include h hnext

theorem UnderWay.step : g.UnderWay seeds (fresh seen next ++ pending) (seen ++ fresh seen next) where
  apart := apart_append_fresh h.apart next
  seen t ht := (List.mem_append.1 ht).elim (h.seen t) fun ht => hnext t (mem_of_mem_fresh ht)
  pending t ht := (List.mem_append.1 ht).elim (fun ht => hnext t (mem_of_mem_fresh ht)) fun ht =>
    h.pending t (List.mem_cons_of_mem _ ht)

/-- What is found now was to be found before, so less remains. -/
theorem UnderWay.remaining_step {n : Nat} (hroom : g.Room seeds n) :
    remaining n (fresh seen next ++ pending) (seen ++ fresh seen next) < remaining n (s :: pending) seen := by
  have hle := hroom _ _ (h.step hnext)
  simp only [remaining, List.length_append, List.length_cons] at hle ⊢
  omega

end Step

/-- The bound of a search is enough, whatever tables it is taken over. -/
theorem room_statementBound (seeds : List Statement) (x : Index) : g.Room seeds (g.statementBound seeds x) := by
  intro _ seen h
  obtain ⟨held, hlen, hheld⟩ := g.exists_statements seeds x
  let all := held ++ seeds.flatMap fun s => s :: g.calls.nodes.map (passedTo s)
  have hlength : all.length = held.length + seeds.length * (1 + g.calls.nodes.length) := by
    simp [all, List.length_flatMap, Nat.add_comm]
  -- apart means that the keys differ, and every key is one of a statement of the list
  have hnodup : (seen.map Statement.key).Nodup := List.pairwise_map.2 <| h.apart.imp fun hab hkey => by
    simp [Statement.beq_iff.2 hkey] at hab
  have hsub : seen.map Statement.key ⊆ all.map Statement.key := by
    intro key hkey
    obtain ⟨t, ht, rfl⟩ := List.mem_map.1 hkey
    rcases h.seen t ht with hs | ⟨s, hs, rfl | ⟨d, hd, rfl⟩⟩
    · have hkey : t.key = (Statement.of t.context t.point).key := by rw [Statement.key, hs.whole]; rfl
      rw [hkey]
      exact List.mem_map_of_mem (List.mem_append_left _ (hheld _ (.of hs.node hs.point)))
    · exact List.mem_map_of_mem (List.mem_append_right _ (List.mem_flatMap.2 ⟨t, hs, by simp⟩))
    · have hparam := List.mem_cons_of_mem s (List.mem_map_of_mem (f := passedTo s) hd)
      exact List.mem_map_of_mem (List.mem_append_right _ (List.mem_flatMap.2 ⟨s, hs, hparam⟩))
  calc seen.length = (seen.map Statement.key).length := by simp
    _ ≤ (all.map Statement.key).length := (hnodup.subperm hsub).length_le
    _ = held.length + seeds.length * (1 + g.calls.nodes.length) := by rw [List.length_map, hlength]
    _ ≤ g.statementBound seeds x := hlen

theorem remaining_start {n : Nat} (hroom : g.Room seeds n) : remaining n (distinct seeds) (distinct seeds) = n := by
  have hle := hroom _ _ (underWay_start seeds)
  simp only [remaining]
  omega

variable {S : Set Context} (hS : OneBody S) (hg : g.calls.Over S) (data control : Level) (limit : Option Int)
include hS hg

/-- The answer about a statement in reach is the same from every sound index, and stays in reach. -/
theorem transparent_inReach (hseeds : ∀ s ∈ seeds, s.context ∈ g.calls.nodes) {s : Statement}
    (hs : g.InReach seeds s) : g.Transparent (g.successors data control s) ∧
      ∀ next, (g.successors data control s {}).1 = .ok next → ∀ t ∈ next, g.InReach seeds t := by
  have hnode := hs.node hseeds
  refine ⟨transparent_successors (hS.mono hg.node) (fun _ => hnode) data control, fun next hnext t ht => ?_⟩
  exact hs.leadsTo (leadsTo_of_successors hS hg (Index.sound_empty g.calls) hnode hnext ht)

/-- Any two sound indexes, and any two amounts of fuel that cover what remains, give one result. -/
theorem expand_eq (hseeds : ∀ s ∈ seeds, s.context ∈ g.calls.nodes) {n : Nat} (hroom : g.Room seeds n) :
    ∀ (fuel fuel' : Nat) {pending seen : List Statement} {x y : Index}, x.Sound g.calls → y.Sound g.calls →
      g.UnderWay seeds pending seen → remaining n pending seen ≤ fuel → remaining n pending seen ≤ fuel' →
      (g.expand data control limit fuel pending seen x).1 = (g.expand data control limit fuel' pending seen y).1 ∧
      (g.expand data control limit fuel pending seen x).2.Sound g.calls := by
  intro fuel
  induction fuel with
  | zero =>
    intro fuel' pending seen x y hx _ _ hf _
    cases List.length_eq_zero_iff.1 (by unfold remaining at hf; omega : pending.length = 0)
    exact ⟨by cases fuel' <;> rfl, hx⟩
  | succ fuel ih =>
    intro fuel' pending seen x y hx hy hway hf hf'
    cases pending with
    | nil => exact ⟨by cases fuel' <;> rfl, hx⟩
    | cons s pending =>
      obtain ⟨htransparent, hreach⟩ := transparent_inReach hS hg data control hseeds (hway.pending s (by simp))
      obtain ⟨hanswer, hx'⟩ := htransparent x hx
      obtain ⟨hanswer', hy'⟩ := htransparent y hy
      obtain ⟨fuel', rfl⟩ : ∃ k, fuel' = k + 1 := ⟨fuel' - 1, by simp only [remaining, List.length_cons] at hf'; omega⟩
      simp only [expand]
      revert hanswer hanswer' hx' hy'
      rcases g.successors data control s x with ⟨out, x'⟩
      rcases g.successors data control s y with ⟨out', y'⟩
      intro hout hx' hout' hy'
      obtain rfl : out = out' := hout.trans hout'.symm
      cases out with
      | error e => exact ⟨rfl, hx'⟩
      | ok next =>
        have hnext := hreach next hout.symm
        have hless := hway.remaining_step hnext hroom
        dsimp only
        split
        · exact ⟨rfl, hx'⟩
        · exact ih fuel' hx' hy' (hway.step hnext) (by omega) (by omega)

/-- A slice does not depend on the index it starts from, also where it fails. -/
theorem transparent_forwardSlice (hseeds : ∀ s ∈ seeds, g.Known s) :
    g.Transparent (g.forwardSlice data control limit seeds) := by
  intro x hx
  unfold forwardSlice
  cases hf : g.foreign? seeds with
  | some s => exact ⟨rfl, hx⟩
  | none =>
    dsimp only
    split
    · exact ⟨rfl, hx⟩
    · have hnode : ∀ s ∈ seeds, s.context ∈ g.calls.nodes := fun s hs =>
        hseeds s hs (foreign?_eq_none_iff.1 hf s hs)
      have hroom : g.Room seeds (min (g.statementBound seeds x) (g.statementBound seeds {})) := fun pending seen h =>
        Nat.le_min.2 ⟨room_statementBound seeds x pending seen h, room_statementBound seeds {} pending seen h⟩
      have hstart := remaining_start hroom
      obtain ⟨hsame, hsound⟩ := expand_eq hS hg data control limit hnode hroom (g.statementBound seeds x)
        (g.statementBound seeds {}) hx (Index.sound_empty g.calls) (underWay_start seeds) (by omega) (by omega)
      revert hsame hsound
      rcases g.expand data control limit (g.statementBound seeds x) (distinct seeds) (distinct seeds) x with ⟨out, x'⟩
      rcases g.expand data control limit (g.statementBound seeds {}) (distinct seeds) (distinct seeds) {} with ⟨out', y'⟩
      rintro rfl hsound
      cases out with
      | error e => exact ⟨rfl, hsound⟩
      | ok slice => exact ⟨rfl, hsound.note _⟩

end Searches

section Slices
variable {g : DependenceGraph}

theorem transparent_slicesOf {sliceOf : Statement → Index → Answer (List Statement)} :
    ∀ {seeds : List Statement}, (∀ s ∈ seeds, g.Transparent (sliceOf s)) → g.Transparent (slicesOf sliceOf seeds)
  | [], _ => transparent_pure _
  | s :: rest, h => by
    have heq : slicesOf sliceOf (s :: rest) = followedBy (sliceOf s) fun slice =>
        followedBy (slicesOf sliceOf rest) fun slices x => (.ok ((s, slice) :: slices), x) := by
      funext x
      rw [slicesOf]
      unfold followedBy
      rcases sliceOf s x with ⟨_ | slice, y⟩
      · rfl
      · dsimp only
        rcases slicesOf sliceOf rest y with ⟨_ | slices, z⟩ <;> rfl
    rw [heq]
    exact (h s (by simp)).followedBy fun slice _ =>
      (transparent_slicesOf fun t ht => h t (List.mem_cons_of_mem _ ht)).followedBy fun slices _ => transparent_pure _

theorem transparent_forwardSlices {S : Set Context} (hS : OneBody S) (hg : g.calls.Over S) (data control : Level)
    (limit : Option Int) (workers : Nat) {seeds : List Statement} (hseeds : ∀ s ∈ seeds, g.Known s) :
    g.Transparent (g.forwardSlices data control limit workers seeds) := by
  have hall : g.Transparent (slicesOf (fun s => g.forwardSlice data control limit [s]) (distinct seeds)) :=
    transparent_slicesOf fun s hs =>
      transparent_forwardSlice hS hg data control limit (by simpa using hseeds s (mem_of_mem_distinct hs))
  intro x hx
  unfold forwardSlices
  dsimp only
  split
  · exact ⟨rfl, hx⟩
  · have hnoted : ∀ (b : Bool) (y : Index), y.Sound g.calls →
        (if b = true then y.note (.parallel (distinct seeds).length workers) else y).Sound g.calls := by
      intro b y hy
      split
      · exact hy.note _
      · exact hy
    obtain ⟨hanswer, hsound⟩ := hall _ (hnoted (decide (1 < workers) && decide (1 < (distinct seeds).length)) x hx)
    obtain ⟨hanswer₀, -⟩ := hall _ (hnoted (decide (1 < workers) && decide (1 < (distinct seeds).length)) {}
      (Index.sound_empty g.calls))
    exact ⟨hanswer.trans hanswer₀.symm, hsound⟩

end Slices
end ForwardSlicing.DependenceGraph
