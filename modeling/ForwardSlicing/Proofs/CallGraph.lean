import Mathlib.Data.List.Induction
import ForwardSlicing.Program.CallGraph
import ForwardSlicing.Proofs.Lists
/-!
# Well-formed call graphs

Contexts are compared by method and name, whatever body they carry. Where the contexts of one method carry one body,
as in every loaded model, equal contexts are the same, and the neighbours of a context are exactly what the list of
edges says (`Over.mem_calleesAt`, `Over.mem_callsTo` and so on). The table of methods is the one of the list of nodes
(`Grown.indexed`), and a query about a node gives its neighbours (`targets_of_contains` and so on).
-/

namespace ForwardSlicing

/-! ## Contexts -/

namespace Context

theorem beq_iff {c d : Context} : (c == d) = true ↔ c.key = d.key := by
  show (c.key == d.key) = true ↔ _
  rw [beq_iff_eq]

instance : EquivBEq Context where
  rfl := beq_iff.2 rfl
  symm h := beq_iff.2 (beq_iff.1 h).symm
  trans h k := beq_iff.2 ((beq_iff.1 h).trans (beq_iff.1 k))

/-- The instruction of a context at an index is a call. -/
def HasCall (c : Context) (i : Nat) : Prop :=
  ∃ target args result site, c.body[i]? = some (.invoke target args result site)

end Context

/-- Contexts of one method carry one body. -/
def OneBody (S : Set Context) : Prop := ∀ c ∈ S, ∀ d ∈ S, c.method = d.method → c.procedure = d.procedure

theorem OneBody.mono {S T : Set Context} (h : OneBody S) (hT : ∀ c ∈ T, c ∈ S) : OneBody T :=
  fun c hc d hd => h c (hT c hc) d (hT d hd)

theorem OneBody.exactOn {S : Set Context} (h : OneBody S) : ExactOn S := by
  intro c hc d hd hcd
  have hk := Context.beq_iff.1 hcd
  simp only [Context.key, Prod.mk.injEq] at hk
  obtain ⟨p, n⟩ := c
  obtain ⟨q, m⟩ := d
  have hp : p = q := h _ hc _ hd hk.1
  rw [hp, show n = m from hk.2]

/-! ## Edges -/

/-- Edges are compared by their contexts and their site. -/
instance : BEq CallEdge := ⟨fun e e' => e.caller == e'.caller && e.site == e'.site && e.callee == e'.callee⟩

theorem CallEdge.beq_iff {e e' : CallEdge} :
    (e == e') = true ↔ (e.caller == e'.caller) = true ∧ e.site = e'.site ∧ (e.callee == e'.callee) = true := by
  show (e.caller == e'.caller && e.site == e'.site && e.callee == e'.callee) = true ↔ _
  simp only [Bool.and_eq_true, beq_iff_eq, and_assoc]

theorem CallEdge.joins_iff {e : CallEdge} {c d : Context} :
    e.joins c d = true ↔ (e.caller == c) = true ∧ (e.callee == d) = true := by
  rw [joins, Bool.and_eq_true]

instance : EquivBEq CallEdge where
  rfl := CallEdge.beq_iff.2 ⟨BEq.rfl, rfl, BEq.rfl⟩
  symm h := by
    obtain ⟨h₁, h₂, h₃⟩ := CallEdge.beq_iff.1 h
    exact CallEdge.beq_iff.2 ⟨BEq.symm h₁, h₂.symm, BEq.symm h₃⟩
  trans h k := by
    obtain ⟨h₁, h₂, h₃⟩ := CallEdge.beq_iff.1 h
    obtain ⟨k₁, k₂, k₃⟩ := CallEdge.beq_iff.1 k
    exact CallEdge.beq_iff.2 ⟨BEq.trans h₁ k₁, h₂.trans k₂, BEq.trans h₃ k₃⟩

/-- Edges between contexts that are compared exactly are compared exactly, if their sites were given as integers. -/
theorem exactOn_edges {S : Set Context} (hS : ExactOn S) :
    ExactOn {e : CallEdge | e.caller ∈ S ∧ e.callee ∈ S ∧ e.isTruth = false} := by
  rintro ⟨⟨c, i, b⟩, d⟩ ⟨hc, hd, hb⟩ ⟨⟨c', i', b'⟩, d'⟩ ⟨hc', hd', hb'⟩ h
  obtain ⟨hcc, hii, hdd⟩ := CallEdge.beq_iff.1 h
  obtain rfl : c = c' := hS c hc c' hc' hcc
  obtain rfl : d = d' := hS d hd d' hd' hdd
  obtain rfl : i = i' := hii
  obtain rfl : b = false := hb
  obtain rfl : b' = false := hb'
  rfl

/-! ## The table of methods -/

namespace MethodTable

/-- The table of contexts that are added one after the other. -/
def ofNodes (cs : List Context) : MethodTable := cs.foldl (fun t c => t.add c) []

theorem ofNodes_concat (cs : List Context) (c : Context) : ofNodes (cs ++ [c]) = (ofNodes cs).add c := by
  simp [ofNodes]

theorem contextsOf_add (c : Context) (m : Method) (t : MethodTable) :
    (t.add c).contextsOf m = t.contextsOf m ++ if c.method = m then [c] else [] := by
  induction t with
  | nil => simp [add, contextsOf]
  | cons e t ih =>
    obtain ⟨m', cs⟩ := e
    by_cases hm : m' = c.method
    · simp only [add, hm, if_true, contextsOf]
      split <;> simp
    · simp only [add, hm, if_false, contextsOf, ih]
      split
      case isTrue h => simp [← h, Ne.symm hm]
      case isFalse => rfl

theorem methods_add (c : Context) (t : MethodTable) : (t.add c).map (·.1) = addNew (t.map (·.1)) c.method := by
  induction t with
  | nil => rfl
  | cons e t ih =>
    obtain ⟨m, cs⟩ := e
    by_cases hm : m = c.method
    · simp [add, addNew, hm]
    · simp only [add, hm, if_false, List.map_cons, ih, addNew, List.contains_cons, beq_iff_eq, Ne.symm hm,
        Bool.or_eq_true, false_or]
      split <;> simp

/-- A method finds its own contexts, in order. -/
theorem contextsOf_ofNodes (m : Method) (cs : List Context) :
    (ofNodes cs).contextsOf m = cs.filter fun c => decide (c.method = m) := by
  induction cs using List.reverseRecOn with
  | nil => rfl
  | append_singleton cs c ih =>
    rw [ofNodes_concat, contextsOf_add, ih, List.filter_append, List.filter_singleton]
    simp

/-- The methods of a table are those of the contexts, each once. -/
theorem methods_ofNodes (cs : List Context) : (ofNodes cs).map (·.1) = distinct (cs.map (·.method)) := by
  rw [← foldl_addNew_nil]
  induction cs using List.reverseRecOn with
  | nil => rfl
  | append_singleton cs c ih => rw [ofNodes_concat, methods_add, ih, List.map_append, List.foldl_append]; rfl

end MethodTable

namespace CallGraph

/-! ## Building -/

/-- A call graph over contexts of `S`: its edges join its nodes, at calls. -/
structure Over (S : Set Context) (g : CallGraph) : Prop where
  node : ∀ c ∈ g.nodes, c ∈ S
  caller : ∀ e ∈ g.edges, e.caller ∈ g.nodes
  callee : ∀ e ∈ g.edges, e.callee ∈ g.nodes
  site : ∀ e ∈ g.edges, e.caller.HasCall e.site

/-- A call graph as it grows from requests: its table of methods is the one of its nodes. -/
structure Grown (S : Set Context) (g : CallGraph) : Prop extends Over S g where
  indexed : g.byMethod = .ofNodes g.nodes

/-- The call graph with other nodes, and their table. -/
def onNodes (g : CallGraph) (cs : List Context) : CallGraph := { g with nodes := cs, byMethod := .ofNodes cs }

section Building
variable {S : Set Context} {g : CallGraph} {c d : Context} {k : Invocation}

theorem grown_empty : Grown S {} where
  node _ h := absurd h (by simp)
  caller _ h := absurd h (by simp)
  callee _ h := absurd h (by simp)
  site _ h := absurd h (by simp)
  indexed := rfl

/-- A node is added to the nodes and to their table. -/
theorem addNode_onNodes (g : CallGraph) (cs : List Context) (c : Context) :
    (g.onNodes cs).addNode c = g.onNodes (addNew cs c) := by
  cases h : cs.contains c with
  | true => simp only [addNode, addNew, onNodes, h, if_true]
  | false => simp only [addNode, addNew, onNodes, h, MethodTable.ofNodes_concat, Bool.false_eq_true, if_false]

theorem Grown.onNodes_self (hg : g.Grown S) : g.onNodes g.nodes = g := by
  rw [onNodes, ← hg.indexed]

theorem Grown.addNode_eq (hg : g.Grown S) (c : Context) : g.addNode c = g.onNodes (addNew g.nodes c) := by
  rw [← addNode_onNodes, hg.onNodes_self]

theorem Grown.addNode (hg : g.Grown S) (hc : c ∈ S) : (g.addNode c).Grown S := by
  rw [hg.addNode_eq]
  refine ⟨⟨fun d hd => ?_, fun e he => mem_addNew_of_mem (hg.caller e he),
    fun e he => mem_addNew_of_mem (hg.callee e he), hg.site⟩, rfl⟩
  rcases mem_or_eq_of_mem_addNew hd with hd | rfl
  · exact hg.node d hd
  · exact hc

theorem Grown.addEntrypoint_eq (hg : g.Grown S) (c : Context) :
    g.addEntrypoint c = { g.onNodes (addNew g.nodes c) with entrypoints := addNew g.entrypoints c } := by
  simp only [addEntrypoint, hg.addNode_eq, onNodes, addNew]
  split <;> rfl

theorem Grown.addEntrypoint (hg : g.Grown S) (hc : c ∈ S) : (g.addEntrypoint c).Grown S := by
  have h := hg.addNode hc
  rw [hg.addNode_eq] at h
  rw [hg.addEntrypoint_eq]
  exact ⟨⟨h.node, h.caller, h.callee, h.site⟩, h.indexed⟩

/-- A site is a call exactly if it is the index of one. -/
theorem callAt?_eq_some_iff {site : Int} {i : Nat} : callAt? c site = some i ↔ site = i ∧ c.HasCall i := by
  unfold callAt?
  constructor
  · intro h
    split at h
    · cases h
    · split at h
      case h_1 target args result label hi =>
        rw [← Option.some.inj h]
        exact ⟨by omega, target, args, result, label, hi⟩
      case h_2 => cases h
  · rintro ⟨rfl, target, args, result, label, hi⟩
    simp [hi]

/-- An edge is between the contexts it is given, since equal contexts are the same. -/
theorem newEdge_eq (hS : ExactOn S) (hg : g.Over S) (hk : k.caller ∈ S) (hd : d ∈ S) : g.newEdge k d = ⟨k, d⟩ := by
  unfold newEdge
  split
  case h_1 e he =>
    have hm := List.mem_of_find?_eq_some he
    have hb := List.find?_some he
    rw [CallEdge.joins_iff] at hb
    rw [hS _ (hg.node _ (hg.caller e hm)) _ hk hb.1, hS _ (hg.node _ (hg.callee e hm)) d hd hb.2]
  case h_2 => rfl

/-- A call is added unless it is there, after its contexts. -/
theorem Grown.addCall_eq (hS : ExactOn S) (hg : g.Grown S) (hk : k.caller ∈ S) (hd : d ∈ S) :
    g.addCall k d = { g.onNodes (addNew (addNew g.nodes k.caller) d) with edges := addNew g.edges ⟨k, d⟩ } := by
  have hg₁ := hg.addNode hk
  have hnodes : (g.addNode k.caller).addNode d = g.onNodes (addNew (addNew g.nodes k.caller) d) := by
    rw [hg.addNode_eq, addNode_onNodes]
  have hany : (g.edges.any fun e => e.joins k.caller d && e.site == k.site) = g.edges.contains ⟨k, d⟩ := by
    rw [Bool.eq_iff_iff, List.contains_iff_exists_mem_beq, List.any_eq_true]
    refine exists_congr fun e => and_congr_right fun _ => ?_
    rw [BEq.comm (a := (⟨k, d⟩ : CallEdge)), CallEdge.beq_iff, Bool.and_eq_true, CallEdge.joins_iff, Nat.beq_eq_true_eq]
    tauto
  have hnew := newEdge_eq hS (hg₁.addNode hd).toOver hk hd
  rw [hnodes] at hnew
  have hadd : addNew g.edges ⟨k, d⟩ = if g.edges.contains ⟨k, d⟩ then g.edges else g.edges ++ [⟨k, d⟩] := rfl
  simp only [addCall, hnodes, hnew, hadd]
  simp only [onNodes, hany]
  split <;> rfl

theorem Grown.addCall (hS : ExactOn S) (hg : g.Grown S) (hk : k.caller ∈ S) (hd : d ∈ S)
    (hcall : k.caller.HasCall k.site) : (g.addCall k d).Grown S := by
  have h₁ := hg.addNode hk
  have h₂ := h₁.addNode hd
  rw [h₁.addNode_eq, hg.addNode_eq] at h₂
  rw [hg.addNode_eq] at h₁
  have hkm : k.caller ∈ addNew (addNew g.nodes k.caller) d := mem_addNew_of_mem (hS.mem_addNew_self hg.node hk)
  have hdm : d ∈ addNew (addNew g.nodes k.caller) d := hS.mem_addNew_self h₁.node hd
  -- the edge may be there already; otherwise it is new, between contexts that are nodes by now
  have hedges : ∀ e ∈ addNew g.edges ⟨k, d⟩, e.caller ∈ addNew (addNew g.nodes k.caller) d ∧
      e.callee ∈ addNew (addNew g.nodes k.caller) d ∧ e.caller.HasCall e.site := by
    intro e he
    rcases mem_or_eq_of_mem_addNew he with he | rfl
    · exact ⟨h₂.caller e he, h₂.callee e he, h₂.site e he⟩
    · exact ⟨hkm, hdm, hcall⟩
  rw [hg.addCall_eq hS hk hd]
  exact ⟨⟨h₂.node, fun e he => (hedges e he).1, fun e he => (hedges e he).2.1, fun e he => (hedges e he).2.2⟩, rfl⟩

/-- At a call, an edge is added with its contexts. -/
theorem addEdge_eq_ok {site : Int} {g' : CallGraph} :
    g.addEdge c site d = (.ok (), g') ↔ ∃ i, callAt? c site = some i ∧ g' = g.addCall (.of c i) d := by
  unfold addEdge
  cases callAt? c site with
  | none => simp
  | some i => simp [eq_comm]

end Building

/-! ## Neighbours -/

section Neighbours
variable {S : Set Context} {g : CallGraph} (hg : g.Over S) {c d : Context} {i : Nat} {k : Invocation}
include hg

theorem Over.mem_of_calleesAt (h : d ∈ g.calleesAt c i) : d ∈ g.nodes := by
  obtain ⟨e, he, rfl⟩ := List.mem_map.1 (mem_of_mem_distinct h)
  exact hg.callee e (List.mem_filter.1 he).1

theorem Over.mem_of_callees (h : d ∈ g.callees c) : d ∈ g.nodes := by
  obtain ⟨e, he, rfl⟩ := List.mem_map.1 (mem_of_mem_distinct h)
  exact hg.callee e (List.mem_filter.1 he).1

variable (hS : ExactOn S)
include hS

theorem Over.eq_caller {e : CallEdge} (he : e ∈ g.edges) (hc : c ∈ S) (h : (e.caller == c) = true) : e.caller = c :=
  hS _ (hg.node _ (hg.caller e he)) c hc h

theorem Over.eq_callee {e : CallEdge} (he : e ∈ g.edges) (hd : d ∈ S) (h : (e.callee == d) = true) : e.callee = d :=
  hS _ (hg.node _ (hg.callee e he)) d hd h

theorem Over.mem_distinct_callees {es : List CallEdge} (hes : ∀ e ∈ es, e ∈ g.edges) :
    d ∈ distinct (es.map (·.callee)) ↔ ∃ e ∈ es, e.callee = d := by
  rw [hS.mem_distinct, List.mem_map]
  intro t ht
  obtain ⟨e, he, rfl⟩ := List.mem_map.1 ht
  exact hg.node _ (hg.callee e (hes e he))

theorem Over.mem_calleesAt (hc : c ∈ S) :
    d ∈ g.calleesAt c i ↔ ∃ k : Invocation, k.caller = c ∧ k.site = i ∧ ⟨k, d⟩ ∈ g.edges := by
  rw [calleesAt, hg.mem_distinct_callees hS fun e he => List.mem_of_mem_filter he]
  constructor
  · rintro ⟨⟨k, callee⟩, he, rfl⟩
    simp only [List.mem_filter, Bool.and_eq_true, beq_iff_eq] at he
    obtain ⟨he, hcaller, rfl⟩ := he
    exact ⟨k, hg.eq_caller hS he hc hcaller, rfl, he⟩
  · rintro ⟨k, rfl, rfl, he⟩
    exact ⟨_, List.mem_filter.2 ⟨he, by simp⟩, rfl⟩

theorem Over.mem_callees (hc : c ∈ S) : d ∈ g.callees c ↔ ∃ k : Invocation, k.caller = c ∧ ⟨k, d⟩ ∈ g.edges := by
  rw [callees, hg.mem_distinct_callees hS fun e he => List.mem_of_mem_filter he]
  constructor
  · rintro ⟨⟨k, callee⟩, he, rfl⟩
    obtain ⟨he, hcaller⟩ := List.mem_filter.1 he
    exact ⟨k, hg.eq_caller hS he hc hcaller, he⟩
  · rintro ⟨k, rfl, he⟩
    exact ⟨_, List.mem_filter.2 ⟨he, BEq.rfl⟩, rfl⟩

theorem Over.mem_callers_iff : c ∈ g.callers d ↔ ∃ e ∈ g.edges, (e.callee == d) = true ∧ e.caller = c := by
  have hsub : ∀ t ∈ (g.edges.filter (·.callee == d)).map (·.caller), t ∈ S := by
    intro t ht
    obtain ⟨e, he, rfl⟩ := List.mem_map.1 ht
    exact hg.node _ (hg.caller e (List.mem_filter.1 he).1)
  rw [callers, hS.mem_distinct hsub]
  simp only [List.mem_map, List.mem_filter, and_assoc]

theorem Over.mem_callers (hd : d ∈ S) : c ∈ g.callers d ↔ ∃ k : Invocation, k.caller = c ∧ ⟨k, d⟩ ∈ g.edges := by
  rw [hg.mem_callers_iff hS]
  constructor
  · rintro ⟨e, he, hcallee, rfl⟩
    exact ⟨e.toInvocation, rfl, hg.eq_callee hS he hd hcallee ▸ he⟩
  · rintro ⟨k, rfl, he⟩
    exact ⟨_, he, BEq.rfl, rfl⟩

theorem Over.mem_callsTo_iff : k ∈ g.callsTo d ↔ ∃ e ∈ g.edges, (e.callee == d) = true ∧ e.toInvocation = k := by
  simp only [callsTo, List.mem_flatMap, List.mem_map, List.mem_filter, CallEdge.joins_iff, hg.mem_callers_iff hS]
  constructor
  · -- the caller was found by an edge that need not be at this site
    rintro ⟨-, ⟨e', he', -, rfl⟩, e, ⟨he, hcaller, hcallee⟩, rfl⟩
    have hsame : e.caller = e'.caller := hg.eq_caller hS he (hg.node _ (hg.caller e' he')) hcaller
    exact ⟨e, he, hcallee, by rw [← hsame]⟩
  · rintro ⟨e, he, hcallee, rfl⟩
    exact ⟨e.caller, ⟨e, he, hcallee, rfl⟩, e, ⟨he, BEq.rfl, hcallee⟩, rfl⟩

theorem Over.call_of_callsTo (h : k ∈ g.callsTo d) : k.caller ∈ g.nodes ∧ k.caller.HasCall k.site := by
  obtain ⟨e, he, -, rfl⟩ := (hg.mem_callsTo_iff hS).1 h
  exact ⟨hg.caller e he, hg.site e he⟩

theorem Over.mem_callsTo (hd : d ∈ S) : k ∈ g.callsTo d ↔ ⟨k, d⟩ ∈ g.edges := by
  rw [hg.mem_callsTo_iff hS]
  constructor
  · rintro ⟨e, he, hcallee, rfl⟩
    exact hg.eq_callee hS he hd hcallee ▸ he
  · intro he
    exact ⟨_, he, BEq.rfl, rfl⟩

end Neighbours

/-! ## Queries -/

section Queries
variable {g : CallGraph} {c : Context}

theorem contains_of_mem (h : c ∈ g.nodes) : g.contains c = true :=
  List.contains_iff_exists_mem_beq.2 ⟨c, h, BEq.rfl⟩

theorem check_of_contains (h : g.contains c = true) : g.check c = .ok () := if_pos h

theorem check_of_mem (h : c ∈ g.nodes) : g.check c = .ok () := check_of_contains (contains_of_mem h)

theorem contains_of_check {u : Unit} (h : g.check c = .ok u) : g.contains c = true := by
  unfold check at h
  split at h
  · assumption
  · cases h

theorem check_of_not_contains (h : g.contains c = false) : g.check c = .error (.unknownContext c) := by
  simp [check, h]

/-- What follows a check of a node is not affected by it. -/
theorem check_bind {α : Type} (h : g.contains c = true) (f : Unit → Except Failure α) : (g.check c >>= f) = f () := by
  rw [check_of_contains h]
  rfl

theorem targets_of_contains (h : g.contains c = true) (i : Nat) : g.targets c i = .ok (g.calleesAt c i) := check_bind h _

theorem predecessors_of_contains (h : g.contains c = true) : g.predecessors c = .ok (g.callers c) := check_bind h _

theorem callSitesTo_of_contains (h : g.contains c = true) : g.callSitesTo c = .ok (g.callsTo c) := check_bind h _

end Queries

/-- A call graph whose edges join its nodes, at calls, and whose nodes of one method carry one body, with jumps that
stay inside. The table of methods is the one of the nodes, and sites were given as integers. -/
structure WellFormed (g : CallGraph) : Prop where
  oneBody : OneBody {c | c ∈ g.nodes}
  caller : ∀ e ∈ g.edges, e.caller ∈ g.nodes
  callee : ∀ e ∈ g.edges, e.callee ∈ g.nodes
  site : ∀ e ∈ g.edges, e.caller.HasCall e.site
  jumps : ∀ c ∈ g.nodes, FlowGraph.badJump? c.body = none
  indexed : g.byMethod = .ofNodes g.nodes
  plain : ∀ e ∈ g.edges, e.isTruth = false

namespace WellFormed

variable {g : CallGraph} (hg : g.WellFormed) {c d : Context}
include hg

theorem eq_of_beq (hc : c ∈ g.nodes) (hd : d ∈ g.nodes) (h : (c == d) = true) : c = d :=
  hg.oneBody.exactOn c hc d hd h

theorem overNodes : g.Over {c | c ∈ g.nodes} := ⟨fun _ hc => hc, hg.caller, hg.callee, hg.site⟩

/-- The call of an edge is given by its caller and its site. -/
theorem eq_of {k : Invocation} (he : ⟨k, d⟩ ∈ g.edges) : k = .of k.caller k.site := by
  obtain ⟨caller, site, truth⟩ := k
  obtain rfl : truth = false := hg.plain _ he
  rfl

theorem mem_calleesAt (hc : c ∈ g.nodes) {i : Nat} : d ∈ g.calleesAt c i ↔ .of c i d ∈ g.edges := by
  rw [hg.overNodes.mem_calleesAt hg.oneBody.exactOn hc]
  constructor
  · rintro ⟨k, rfl, rfl, he⟩
    rwa [hg.eq_of he] at he
  · intro he
    exact ⟨_, rfl, rfl, he⟩

theorem mem_callers (hd : d ∈ g.nodes) : c ∈ g.callers d ↔ ∃ i, .of c i d ∈ g.edges := by
  rw [hg.overNodes.mem_callers hg.oneBody.exactOn hd]
  constructor
  · rintro ⟨k, rfl, he⟩
    rw [hg.eq_of he] at he
    exact ⟨k.site, he⟩
  · rintro ⟨i, he⟩
    exact ⟨_, rfl, he⟩

theorem mem_callsTo (hd : d ∈ g.nodes) {k : Invocation} : k ∈ g.callsTo d ↔ ⟨k, d⟩ ∈ g.edges :=
  hg.overNodes.mem_callsTo hg.oneBody.exactOn hd

/-- The contexts of a method are found in its table. -/
theorem mem_nodesFor {m : Method} : c ∈ g.nodesFor m ↔ c ∈ g.nodes ∧ c.method = m := by
  simp [nodesFor, hg.indexed, MethodTable.contextsOf_ofNodes]

end WellFormed

end CallGraph
end ForwardSlicing
