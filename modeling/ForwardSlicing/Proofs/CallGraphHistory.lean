import ForwardSlicing.Proofs.Loading
import ForwardSlicing.Proofs.Search
/-!
# Call graphs as they grow

A call graph is built by requests: a node, an entry point or an edge is added. A request gives an outcome and the call
graph it leaves (`CallGraph.change`). Only an edge can be refused, which is found out before anything is added
(`change_of_not_allowed`); otherwise each of the lists gets what the request mentions, unless it is there
(`change_of_allowed`). So along any history each list has what the requests so far mentioned, in the order of their first
mention, and the table of methods is the one of the nodes (`Growth.Kept`).

`history_consistent`: hence after any history all queries agree with each other, and the sizes count what was mentioned.
-/

namespace ForwardSlicing

/-! ## Requests -/

/-- A request to change a call graph. The site of a call may be any value. -/
inductive Change where
  | node (c : Context)
  | entrypoint (c : Context)
  | edge (caller : Context) (site : Json) (callee : Context)

/-- An edge by its caller, its site and its callee, whichever way the site was given. -/
def CallEdge.plain (e : CallEdge) : CallEdge := .of e.caller e.site e.callee

namespace Change

/-- The contexts that a request mentions, the caller before the callee. -/
def contexts : Change → List Context
  | .node c => [c]
  | .entrypoint c => [c]
  | .edge caller _ callee => [caller, callee]

/-- The entry points that a request mentions. -/
def entrypoints : Change → List Context
  | .entrypoint c => [c]
  | _ => []

/-- The edges that a request mentions. -/
def edges : Change → List CallEdge
  | .edge caller site callee => (site.whole?.map fun i => .of caller i.toNat callee).toList
  | _ => []

/-- An edge has to be at the index of a call of its caller. -/
def Allowed : Change → Prop
  | .edge caller site _ => ∃ i : Nat, site.whole? = some (i : Int) ∧ caller.HasCall i
  | _ => True

variable {ch : Change}

theorem mem_contexts_of_entrypoints {c : Context} (h : c ∈ ch.entrypoints) : c ∈ ch.contexts := by
  cases ch with
  | entrypoint => exact h
  | _ => cases h

theorem mem_contexts_of_edges {e : CallEdge} (h : e ∈ ch.edges) :
    e.caller ∈ ch.contexts ∧ e.callee ∈ ch.contexts ∧ e.isTruth = false := by
  cases ch with
  | edge caller site callee =>
    simp only [edges, Option.mem_toList, Option.map_eq_some_iff] at h
    obtain ⟨i, -, rfl⟩ := h
    simp [contexts]
  | _ => cases h

end Change

theorem CallEdge.plain_beq (e e' : CallEdge) : (e == e') = (e.plain == e'.plain) := rfl

namespace CallGraph

/-- Makes a change, or refuses it. -/
def change (g : CallGraph) : Change → Except Failure Unit × CallGraph
  | .node c => (.ok (), g.addNode c)
  | .entrypoint c => (.ok (), g.addEntrypoint c)
  | .edge caller site callee => g.addEdgeAt caller site callee

section Refused
variable {g : CallGraph} {c d : Context} {site : Json}

theorem callAt?_eq_none_iff {site : Int} : callAt? c site = none ↔ ¬∃ i : Nat, site = i ∧ c.HasCall i := by
  simp only [← callAt?_eq_some_iff, Option.eq_none_iff_forall_ne_some, ne_eq, not_exists]

/-- An edge at the index of a call is added, whichever way the index was given. -/
theorem addEdgeAt_of_call {i : Nat} (hsite : site.whole? = some (i : Int)) (hi : c.HasCall i) :
    ∃ truth, g.addEdgeAt c site d = (.ok (), g.addCall ⟨c, i, truth⟩ d) := by
  have hcall : callAt? c i = some i := callAt?_eq_some_iff.2 ⟨rfl, hi⟩
  cases site with
  | int n =>
    obtain rfl : n = i := Option.some.inj hsite
    exact ⟨false, by simp [addEdgeAt, addEdge, hcall]⟩
  | bool b =>
    obtain rfl : i = b.toNat := by cases b <;> simpa [Json.whole?, eq_comm] using hsite
    exact ⟨true, by simp [addEdgeAt, hcall]⟩
  | _ => cases hsite

/-- An edge that is not at a call is refused, and nothing is added. -/
theorem addEdgeAt_of_no_call (h : ¬∃ i : Nat, site.whole? = some (i : Int) ∧ c.HasCall i) :
    ∃ e, g.addEdgeAt c site d = (.error e, g) ∧ (site.whole? ≠ none → e = .model (.notCallSite c site)) := by
  cases site with
  | int n =>
    have hcall : callAt? c n = none := callAt?_eq_none_iff.2 (by simpa [Json.whole?] using h)
    exact ⟨_, by simp only [addEdgeAt, addEdge, hcall], fun _ => rfl⟩
  | bool b =>
    have hcall : callAt? c b.toNat = none := callAt?_eq_none_iff.2 (by cases b <;> simpa [Json.whole?] using h)
    exact ⟨_, by simp only [addEdgeAt, hcall], fun _ => rfl⟩
  | _ => exact ⟨_, rfl, fun hsite => absurd rfl hsite⟩

theorem change_of_not_allowed {ch : Change} (h : ¬ch.Allowed) : ∃ e, g.change ch = (.error e, g) := by
  cases ch with
  | edge c site d => exact (addEdgeAt_of_no_call h).imp fun _ he => he.1
  | _ => exact absurd trivial h

end Refused

/-- What was mentioned before, and what a request mentions. -/
structure Includes (g : CallGraph) (ch : Change) (g' : CallGraph) : Prop where
  nodes : g'.nodes = ch.contexts.foldl addNew g.nodes
  entrypoints : g'.entrypoints = ch.entrypoints.foldl addNew g.entrypoints
  edges : g'.edges.map CallEdge.plain = ch.edges.foldl addNew (g.edges.map CallEdge.plain)

/-- A change that is allowed adds what it mentions. -/
theorem change_of_allowed {S : Set Context} (hS : ExactOn S) {g : CallGraph} (hg : g.Grown S) {ch : Change}
    (hch : ∀ c ∈ ch.contexts, c ∈ S) (h : ch.Allowed) :
    ∃ g', g.change ch = (.ok (), g') ∧ g'.Grown S ∧ g.Includes ch g' := by
  cases ch with
  | node c =>
    refine ⟨_, rfl, hg.addNode (hch c (by simp [Change.contexts])), ?_⟩
    rw [hg.addNode_eq]
    exact ⟨rfl, rfl, rfl⟩
  | entrypoint c =>
    refine ⟨_, rfl, hg.addEntrypoint (hch c (by simp [Change.contexts])), ?_⟩
    rw [hg.addEntrypoint_eq]
    exact ⟨rfl, rfl, rfl⟩
  | edge c site d =>
    have hc : c ∈ S := hch c (by simp [Change.contexts])
    have hd : d ∈ S := hch d (by simp [Change.contexts])
    obtain ⟨i, hsite, hi⟩ := h
    obtain ⟨truth, hadd⟩ := addEdgeAt_of_call (g := g) (d := d) hsite hi
    have hedges : Change.edges (.edge c site d) = [.of c i d] := by simp [Change.edges, hsite]
    refine ⟨_, hadd, hg.addCall hS (k := ⟨c, i, truth⟩) hc hd hi, ?_⟩
    rw [hg.addCall_eq hS (k := ⟨c, i, truth⟩) hc hd]
    refine ⟨rfl, rfl, ?_⟩
    rw [hedges]
    exact map_addNew CallEdge.plain_beq g.edges _

end CallGraph

/-! ## Histories -/

/-- A call graph, and the changes that have made it. -/
structure Growth where
  calls : CallGraph := {}
  made : List Change := []

namespace Growth

/-- What a request comes to: the call graph it leaves, and one more change if it was not refused. -/
def next (growth : Growth) (ch : Change) : Growth where
  calls := (growth.calls.change ch).2
  made :=
    match (growth.calls.change ch).1 with
    | .ok _ => growth.made ++ [ch]
    | .error _ => growth.made

/-- A new call graph after a history of requests. -/
def after (history : List Change) : Growth := history.foldl next {}

/-- A refused request leaves all as it was. -/
theorem next_of_not_allowed {growth : Growth} {ch : Change} (h : ¬ch.Allowed) : growth.next ch = growth := by
  obtain ⟨e, he⟩ := growth.calls.change_of_not_allowed h
  simp only [next, he]

/-- The lists of a call graph have what was mentioned so far, in the order of first mention. -/
structure Kept (S : Set Context) (growth : Growth) : Prop where
  held : growth.calls.Grown S
  mentioned : ∀ ch ∈ growth.made, ∀ c ∈ ch.contexts, c ∈ S
  nodes : FirstMentions (growth.made.flatMap Change.contexts) growth.calls.nodes
  entrypoints : FirstMentions (growth.made.flatMap Change.entrypoints) growth.calls.entrypoints
  edges : FirstMentions (growth.made.flatMap Change.edges) (growth.calls.edges.map CallEdge.plain)

theorem kept_empty (S : Set Context) : Kept S {} :=
  ⟨CallGraph.grown_empty, fun _ h => absurd h (by simp), .nil, .nil, .nil⟩

section Runs
variable {S : Set Context} (hS : ExactOn S) {growth : Growth}
include hS

/-- One change adds its own mentions behind those before it. -/
theorem Kept.next (hk : growth.Kept S) {ch : Change} (hch : ∀ c ∈ ch.contexts, c ∈ S) : (growth.next ch).Kept S := by
  by_cases hallowed : ch.Allowed
  case neg => rwa [next_of_not_allowed hallowed]
  obtain ⟨calls, hchange, hheld, hincl⟩ := CallGraph.change_of_allowed hS hk.held hch hallowed
  have hnext : growth.next ch = ⟨calls, growth.made ++ [ch]⟩ := by simp only [Growth.next, hchange]
  have hmentioned : ∀ ch' ∈ growth.made ++ [ch], ∀ c ∈ ch'.contexts, c ∈ S := by
    intro ch' h
    rcases List.mem_append.1 h with h | h
    · exact hk.mentioned ch' h
    · exact List.mem_singleton.1 h ▸ hch
  -- the mentions of all changes are contexts of `S`, or entry points among these, or edges between them
  have hcontexts : ∀ c ∈ (growth.made ++ [ch]).flatMap Change.contexts, c ∈ S := by
    intro c hc
    obtain ⟨ch', hch', hc⟩ := List.mem_flatMap.1 hc
    exact hmentioned ch' hch' c hc
  have hentrypoints : ∀ c ∈ (growth.made ++ [ch]).flatMap Change.entrypoints, c ∈ S := by
    intro c hc
    obtain ⟨ch', hch', hc⟩ := List.mem_flatMap.1 hc
    exact hmentioned ch' hch' c (Change.mem_contexts_of_entrypoints hc)
  have hedges : ∀ e ∈ (growth.made ++ [ch]).flatMap Change.edges, e.caller ∈ S ∧ e.callee ∈ S ∧ e.isTruth = false := by
    intro e he
    obtain ⟨ch', hch', he⟩ := List.mem_flatMap.1 he
    obtain ⟨hcaller, hcallee, hplain⟩ := Change.mem_contexts_of_edges he
    exact ⟨hmentioned ch' hch' _ hcaller, hmentioned ch' hch' _ hcallee, hplain⟩
  rw [hnext]
  rw [List.flatMap_append, List.flatMap_singleton] at hcontexts hentrypoints hedges
  refine ⟨hheld, hmentioned, ?_, ?_, ?_⟩ <;> dsimp only <;> rw [List.flatMap_append, List.flatMap_singleton]
  · rw [hincl.nodes]
    exact hS.firstMentions_foldl hcontexts hk.nodes
  · rw [hincl.entrypoints]
    exact hS.firstMentions_foldl hentrypoints hk.entrypoints
  · rw [hincl.edges]
    exact (exactOn_edges hS).firstMentions_foldl hedges hk.edges

theorem kept_after {history : List Change} (h : ∀ ch ∈ history, ∀ c ∈ ch.contexts, c ∈ S) : (after history).Kept S := by
  unfold after
  exact List.foldlRecOn history Growth.next (kept_empty S) fun growth hk ch hch => hk.next hS (h ch hch)

end Runs
end Growth

/-! ## Views -/

namespace CallGraph

section Listing
variable {S : Set Context} (hS : ExactOn S) {g : CallGraph} (hg : g.Over S)
include hS hg

theorem Over.mem_edgesInOrder {e : CallEdge} : e ∈ g.edgesInOrder ↔ e ∈ g.edges := by
  simp only [edgesInOrder, List.mem_flatMap, List.mem_filter]
  constructor
  · rintro ⟨-, -, -, -, he, -⟩
    exact he
  · intro he
    have hcaller := hg.caller e he
    exact ⟨_, hcaller, _, (hg.mem_callees hS (hg.node _ hcaller)).2 ⟨e.toInvocation, rfl, he⟩, he,
      CallEdge.joins_iff.2 ⟨BEq.rfl, BEq.rfl⟩⟩

/-- No edge is listed twice: it is listed under its caller and its callee only. -/
theorem Over.nodup_edgesInOrder (hnodes : g.nodes.Nodup) (hedges : g.edges.Nodup) : g.edgesInOrder.Nodup := by
  have hcallees : ∀ c, ∀ d ∈ g.callees c, d ∈ S := fun c d hd => hg.node d (hg.mem_of_callees hd)
  refine List.nodup_flatMap.2 ⟨fun c _ => List.nodup_flatMap.2 ⟨fun d _ => hedges.filter _, ?_⟩, ?_⟩
  · refine (nodup_distinct _).pairwise_of_forall_ne fun d hd d' hd' hne e he he' => hne ?_
    have hd₁ := (CallEdge.joins_iff.1 (List.mem_filter.1 he).2).2
    have hd₂ := (CallEdge.joins_iff.1 (List.mem_filter.1 he').2).2
    exact hS d (hcallees c d hd) d' (hcallees c d' hd') (BEq.trans (BEq.symm hd₁) hd₂)
  · refine hnodes.pairwise_of_forall_ne fun c hc c' hc' hne e he he' => hne ?_
    obtain ⟨_, -, he⟩ := List.mem_flatMap.1 he
    obtain ⟨_, -, he'⟩ := List.mem_flatMap.1 he'
    have hc₁ := (CallEdge.joins_iff.1 (List.mem_filter.1 he).2).1
    have hc₂ := (CallEdge.joins_iff.1 (List.mem_filter.1 he').2).1
    exact hS c (hg.node c hc) c' (hg.node c' hc') (BEq.trans (BEq.symm hc₁) hc₂)

/-- No call to a context is listed twice. -/
theorem Over.nodup_callsTo (hedges : g.edges.Nodup) {d : Context} (hd : d ∈ S) : (g.callsTo d).Nodup := by
  have hcaller : ∀ c ∈ g.callers d, c ∈ S := by
    intro c hc
    obtain ⟨k, rfl, he⟩ := (hg.mem_callers hS hd).1 hc
    exact hg.node _ (hg.caller _ he)
  -- an edge from `c` to `d` is given by its call
  have hedge : ∀ c ∈ g.callers d, ∀ e ∈ g.edges.filter (·.joins c d),
      (⟨{ e.toInvocation with caller := c }, d⟩ : CallEdge) = e := by
    intro c hc e he
    obtain ⟨he, hj⟩ := List.mem_filter.1 he
    rw [CallEdge.joins_iff] at hj
    rw [← hS _ (hg.node _ (hg.caller e he)) c (hcaller c hc) hj.1, ← hS _ (hg.node _ (hg.callee e he)) d hd hj.2]
  refine List.nodup_flatMap.2 ⟨fun c hc => ?_, ?_⟩
  · refine (hedges.filter _).map_on fun e he e' he' h => ?_
    rw [← hedge c hc e he, ← hedge c hc e' he', h]
  · refine (nodup_distinct _).pairwise_of_forall_ne fun c _ c' _ hne k hk hk' => hne ?_
    obtain ⟨e, -, rfl⟩ := List.mem_map.1 hk
    obtain ⟨e', -, h⟩ := List.mem_map.1 hk'
    exact (congrArg Invocation.caller h).symm

end Listing

/-- The answer to a query about a context: for a node a list without repeats of what is related to it, for any other
context that it is unknown. -/
def Lists {α : Type} (g : CallGraph) (c : Context) (answer : Except Failure (List α)) (P : α → Prop) : Prop :=
  (c ∈ g.nodes → ∃ xs, answer = .ok xs ∧ xs.Nodup ∧ ∀ a, a ∈ xs ↔ P a) ∧
    (c ∉ g.nodes → answer = .error (.unknownContext c))

/-- A query that checks its context lists what it computes for a node. -/
theorem lists_checked {α : Type} {S : Set Context} (hS : ExactOn S) {g : CallGraph} (hg : g.Over S) {c : Context}
    (hc : c ∈ S) {xs : List α} {P : α → Prop} (hnodup : xs.Nodup) (hmem : ∀ a, a ∈ xs ↔ P a) :
    g.Lists c (do g.check c; return xs) P := by
  refine ⟨fun hnode => ⟨xs, ?_, hnodup, hmem⟩, fun hnode => ?_⟩
  · rw [check_of_mem hnode]
    rfl
  · have hcontains : ¬g.contains c = true := fun h => hnode ((hS.contains_iff hg.node hc).1 h)
    rw [check_of_not_contains (by simpa using hcontains)]
    rfl

/-- All queries agree with each other and with the changes that were made. -/
structure Consistent (S : Set Context) (made : List Change) (g : CallGraph) : Prop where
  nodes : FirstMentions (made.flatMap Change.contexts) g.nodes
  nodesFor : ∀ m, g.nodesFor m = g.nodes.filter fun c => decide (c.method = m)
  entrypoints : FirstMentions (made.flatMap Change.entrypoints) g.entrypoints
  started : ∀ c ∈ g.entrypoints, c ∈ g.nodes
  listed : (g.edgesInOrder.map CallEdge.plain).Nodup ∧
    ∀ e, e ∈ g.edgesInOrder.map CallEdge.plain ↔ e ∈ made.flatMap Change.edges
  joined : ∀ e ∈ g.edgesInOrder, e.caller ∈ g.nodes ∧ e.callee ∈ g.nodes ∧ e.caller.HasCall e.site
  targets : ∀ c ∈ S, ∀ i, g.Lists c (g.targets c i) fun d => .of c i d ∈ g.edgesInOrder.map CallEdge.plain
  targetsAt : ∀ c ∈ S, ∀ site : Json, g.Lists c (g.targetsAt c site) fun d =>
    ∃ i : Nat, site.equalInteger? = some (i : Int) ∧ .of c i d ∈ g.edgesInOrder.map CallEdge.plain
  callSitesTo : ∀ d ∈ S, g.Lists d (g.callSitesTo d) fun k => ⟨k, d⟩ ∈ g.edgesInOrder
  successors : ∀ c ∈ S, g.Lists c (g.successors c) fun d => ∃ i, .of c i d ∈ g.edgesInOrder.map CallEdge.plain
  predecessors : ∀ d ∈ S, g.Lists d (g.predecessors d) fun c => ∃ i, .of c i d ∈ g.edgesInOrder.map CallEdge.plain
  stats : g.stats = {
    contexts := {c | c ∈ made.flatMap Change.contexts}.ncard
    edges := {e | e ∈ made.flatMap Change.edges}.ncard
    methods := {m | ∃ c ∈ made.flatMap Change.contexts, c.method = m}.ncard
    entrypoints := {c | c ∈ made.flatMap Change.entrypoints}.ncard }

end CallGraph

theorem FirstMentions.length_eq {α : Type} {xs ys : List α} (h : FirstMentions xs ys) :
    ys.length = {a | a ∈ xs}.ncard :=
  Search.length_eq_ncard h.nodup fun _ => h.mem_iff

namespace Growth

variable {S : Set Context} {growth : Growth}

theorem Kept.stats_eq (hk : growth.Kept S) : growth.calls.stats = {
    contexts := {c | c ∈ growth.made.flatMap Change.contexts}.ncard
    edges := {e | e ∈ growth.made.flatMap Change.edges}.ncard
    methods := {m | ∃ c ∈ growth.made.flatMap Change.contexts, c.method = m}.ncard
    entrypoints := {c | c ∈ growth.made.flatMap Change.entrypoints}.ncard } := by
  have hmethods : growth.calls.byMethod.length = {m | ∃ c ∈ growth.made.flatMap Change.contexts, c.method = m}.ncard := by
    have hexact : ExactOn (Set.univ : Set Method) := fun _ _ _ _ h => eq_of_beq h
    rw [hk.held.indexed, ← List.length_map (·.1), MethodTable.methods_ofNodes]
    refine Search.length_eq_ncard (nodup_distinct _) fun m => ?_
    rw [hexact.mem_distinct fun _ _ => trivial, List.mem_map]
    exact exists_congr fun c => and_congr_left fun _ => hk.nodes.mem_iff
  have hedges : growth.calls.edges.length = {e | e ∈ growth.made.flatMap Change.edges}.ncard := by
    rw [← hk.edges.length_eq, List.length_map]
  rw [CallGraph.stats, hk.nodes.length_eq, hk.entrypoints.length_eq, hedges, hmethods]

theorem Kept.consistent (hS : ExactOn S) (hk : growth.Kept S) :
    CallGraph.Consistent S growth.made growth.calls := by
  have hover := hk.held.toOver
  have hlisted : ∀ {e : CallEdge}, e ∈ growth.calls.edgesInOrder ↔ e ∈ growth.calls.edges := hover.mem_edgesInOrder hS
  have hplain : ∀ {e}, e ∈ growth.calls.edgesInOrder.map CallEdge.plain ↔ e ∈ growth.calls.edges.map CallEdge.plain := by
    simp only [List.mem_map, hlisted, implies_true]
  have hedges : growth.calls.edges.Nodup := hk.edges.nodup.of_map
  -- an edge, by its call
  have hmem : ∀ {c i d}, .of c i d ∈ growth.calls.edgesInOrder.map CallEdge.plain ↔
      ∃ k : Invocation, k.caller = c ∧ k.site = i ∧ ⟨k, d⟩ ∈ growth.calls.edges := by
    intro c i d
    rw [hplain, List.mem_map]
    constructor
    · rintro ⟨e, he, hc⟩
      obtain ⟨rfl, rfl, rfl⟩ : e.caller = c ∧ e.site = i ∧ e.callee = d := by simpa [CallEdge.plain, and_assoc] using hc
      exact ⟨e.toInvocation, rfl, rfl, he⟩
    · rintro ⟨k, rfl, rfl, he⟩
      exact ⟨_, he, rfl⟩
  have htargets : ∀ c ∈ S, ∀ i, growth.calls.Lists c (growth.calls.targets c i) fun d =>
      .of c i d ∈ growth.calls.edgesInOrder.map CallEdge.plain := fun c hc i =>
    CallGraph.lists_checked hS hover hc (nodup_distinct _) fun d => by rw [hover.mem_calleesAt hS hc, hmem]
  refine ⟨hk.nodes, fun m => ?_, hk.entrypoints, fun c hc => ?_, ⟨?_, fun e => ?_⟩, fun e he => ?_, htargets,
    fun c hc site => ?_, fun d hd => ?_, fun c hc => ?_, fun d hd => ?_, hk.stats_eq⟩
  · rw [CallGraph.nodesFor, hk.held.indexed, MethodTable.contextsOf_ofNodes]
  · -- an entry point was mentioned as a context too
    obtain ⟨ch, hch, hc⟩ := List.mem_flatMap.1 (hk.entrypoints.mem_iff.1 hc)
    exact hk.nodes.mem_iff.2 (List.mem_flatMap.2 ⟨ch, hch, Change.mem_contexts_of_entrypoints hc⟩)
  · refine (hover.nodup_edgesInOrder hS hk.nodes.nodup hedges).map_on fun e he e' he' h => ?_
    exact List.inj_on_of_nodup_map hk.edges.nodup (hlisted.1 he) (hlisted.1 he') h
  · rw [hplain, hk.edges.mem_iff]
  · rw [hlisted] at he
    exact ⟨hover.caller e he, hover.callee e he, hover.site e he⟩
  · -- only a site that is equal to a natural number has targets
    rw [CallGraph.targetsAt]
    split
    case h_1 i hi => simpa [hi] using htargets c hc i
    case h_2 h =>
      refine CallGraph.lists_checked hS hover hc List.nodup_nil fun d => ?_
      simp only [List.not_mem_nil, false_iff, not_exists, not_and]
      exact fun i hi => absurd hi (h i)
  · refine CallGraph.lists_checked hS hover hd (hover.nodup_callsTo hS hedges hd) fun k => ?_
    rw [hover.mem_callsTo hS hd, hlisted]
  · refine CallGraph.lists_checked hS hover hc (nodup_distinct _) fun d => ?_
    rw [hover.mem_callees hS hc]
    simp [hmem]
  · refine CallGraph.lists_checked hS hover hd (nodup_distinct _) fun c => ?_
    rw [hover.mem_callers hS hd]
    simp [hmem]

end Growth

namespace CallGraph

/-- After any history of requests on a new call graph, some of them refused, all queries agree with each other and with the
changes that were made. A request is refused exactly if it is an edge that is not at a call of its caller; the call graph
that it leaves is the one before it, and it makes no difference to anything that comes after it. -/
theorem history_consistent {S : Set Context} (hS : OneBody S) {history : List Change}
    (hhistory : ∀ ch ∈ history, ∀ c ∈ ch.contexts, c ∈ S) :
    Consistent S (Growth.after history).made (Growth.after history).calls ∧
    (∀ (g : CallGraph) (ch : Change), (∃ e, (g.change ch).1 = .error e) ↔ ¬ch.Allowed) ∧
    (∀ (g : CallGraph) (c d : Context) (site : Json) (e : Failure), (g.addEdgeAt c site d).1 = .error e →
      site.whole? ≠ none → e = .model (.notCallSite c site)) ∧
    ∀ before ch rest, history = before ++ ch :: rest →
      (∃ e, ((Growth.after before).calls.change ch).1 = .error e) →
      ((Growth.after before).calls.change ch).2 = (Growth.after before).calls ∧
      Growth.after history = Growth.after (before ++ rest) := by
  have hkept := Growth.kept_after hS.exactOn hhistory
  have hrefused : ∀ (g : CallGraph) (ch : Change), (∃ e, (g.change ch).1 = .error e) ↔ ¬ch.Allowed := by
    intro g ch
    constructor
    · rintro ⟨e, he⟩ hallowed
      cases ch with
      | edge c site d =>
        obtain ⟨i, hsite, hi⟩ := hallowed
        obtain ⟨truth, hadd⟩ := addEdgeAt_of_call (g := g) (d := d) hsite hi
        rw [change, hadd] at he
        cases he
      | _ => cases he
    · intro h
      obtain ⟨e, he⟩ := g.change_of_not_allowed h
      exact ⟨e, by rw [he]⟩
  refine ⟨hkept.consistent hS.exactOn, hrefused, ?_, ?_⟩
  · intro g c d site e he hsite
    obtain ⟨e', he', hmodel⟩ := addEdgeAt_of_no_call (g := g) (d := d) ((hrefused g (.edge c site d)).1 ⟨e, he⟩)
    rw [he'] at he
    rw [← Except.error.inj he]
    exact hmodel hsite
  · rintro before ch rest rfl hfails
    have hstep : (Growth.after before).next ch = Growth.after before :=
      Growth.next_of_not_allowed ((hrefused _ ch).1 hfails)
    have hafter : ∀ first second : List Change,
        Growth.after (first ++ second) = second.foldl Growth.next (Growth.after first) := fun _ _ => List.foldl_append
    refine ⟨congrArg Growth.calls hstep, ?_⟩
    rw [hafter, hafter, List.foldl_cons, hstep]

end CallGraph

namespace Sample

/-- A callee that is mentioned before its caller, a call from itself, a site that is given as a truth value and then again
as an integer, repeats, and an edge at an instruction that is not a call. -/
def requests : List Change :=
  [.node (merged walk), .edge (merged main) (.bool true) (merged walk), .edge (merged main) (.int 0) outer,
    .edge (merged walk) (.int 1) (merged walk), .entrypoint (merged main), .edge (merged main) (.int 1) (merged walk),
    .entrypoint (merged main)]

end Sample

/-- The context that only the refused request mentions is unknown, and the repeats do not count. -/
theorem CallGraph.history_consistent_requests : OneBody Sample.contexts ∧
    (∀ ch ∈ Sample.requests, ∀ c ∈ ch.contexts, c ∈ Sample.contexts) ∧
    (Growth.after Sample.requests).calls.stats = ⟨2, 2, 2, 1⟩ ∧
    {e | e ∈ (Growth.after Sample.requests).made.flatMap Change.edges}.ncard = 2 ∧
    Sample.outer ∈ Sample.contexts ∧
    (Growth.after Sample.requests).calls.callSitesTo Sample.outer = .error (.unknownContext Sample.outer) := by
  have hcontexts : ∀ ch ∈ Sample.requests, ∀ c ∈ ch.contexts, c ∈ Sample.contexts := by
    have hmain : Sample.merged Sample.main ∈ Sample.contexts := .inl rfl
    have hwalk : Sample.merged Sample.walk ∈ Sample.contexts := .inr rfl
    have houter : Sample.outer ∈ Sample.contexts := .inr rfl
    simp [Sample.requests, Change.contexts, hmain, hwalk, houter]
  have hstats : (Growth.after Sample.requests).calls.stats = ⟨2, 2, 2, 1⟩ := by decide
  obtain ⟨hconsistent, -, -⟩ := history_consistent Sample.oneBody_contexts hcontexts
  have hcount := congrArg Stats.edges (hconsistent.stats.symm.trans hstats)
  have houter : Sample.outer ∈ Sample.contexts := .inr rfl
  have hforeign : Sample.outer ∉ (Growth.after Sample.requests).calls.nodes := by
    intro hnode
    have hcontains : (Growth.after Sample.requests).calls.contains Sample.outer = false := by decide
    simp [contains_of_mem hnode] at hcontains
  exact ⟨Sample.oneBody_contexts, hcontexts, hstats, hcount, houter, (hconsistent.callSitesTo _ houter).2 hforeign⟩

end ForwardSlicing
