import Mathlib.Data.Set.Card
import ForwardSlicing.Proofs.CallGraph
import ForwardSlicing.Slice
/-!
# The statements of a call graph

A factory takes a position as an integer, a truth value or a number with a fraction; `Sited` says which statements it
makes of them. A call graph has finitely many statements with integer positions: the points of its nodes that exist. On
a well-formed call graph equal ones are the same, and there are no more of them than the bound of a search.
-/

namespace ForwardSlicing

/-! ## Statements that exist -/

namespace Statement

theorem beq_iff {s t : Statement} : (s == t) = true ↔ s.key = t.key := by
  show (s.point == t.point && s.fractions == t.fractions && s.context.key == t.context.key) = true ↔ _
  simp only [Bool.and_eq_true, beq_iff_eq, key, Prod.mk.injEq]
  tauto

instance : EquivBEq Statement where
  rfl := beq_iff.2 rfl
  symm h := beq_iff.2 (beq_iff.1 h).symm
  trans h k := beq_iff.2 ((beq_iff.1 h).trans (beq_iff.1 k))

end Statement

/-- The point exists in a context. -/
def Point.In (c : Context) : Point → Prop
  | .normal i => i < c.body.length
  | .returned i => c.HasCall i
  | .argument i k => ∃ target args result site, c.body[i]? = some (.invoke target args result site) ∧ k < args.length
  | .param k => k < c.procedure.params
  | .entry => True
  | .exit => True

/-! ## Positions and factories -/

/-- The position that a number stands for: its whole part, unless it is negative. -/
def Json.position? : Json → Option Nat
  | .int i => if 0 ≤ i then some i.toNat else none
  | .bool b => some b.toNat
  | .float (.finite negative units) => if units = 0 || !negative then some (units / Binary64.one) else none
  | _ => none

theorem Binary64.one_pos : 0 < Binary64.one := by
  unfold one
  generalize 1074 = n
  exact Nat.two_pow_pos n

namespace Statement

/-- A position is found exactly if it is one and is among them. -/
theorem positionAmong_eq_ok {count k : Nat} {v : Json} :
    positionAmong count v = .ok (some k) ↔ v.position? = some k ∧ k < count := by
  unfold positionAmong Json.position?
  cases v with
  | int i => grind
  | bool b => grind
  | float x =>
    cases x with
    | finite negative units =>
      have hdiv : units < count * Binary64.one ↔ units / Binary64.one < count :=
        (Nat.div_lt_iff_lt_mul Binary64.one_pos).symm
      grind
    | _ => simp
  | _ => simp

theorem instructionAt_eq_ok {c : Context} {index : Json} {i : Nat} {ins : Instruction} :
    instructionAt c index = .ok (i, ins) ↔ index.whole? = some (i : Int) ∧ c.body[i]? = some ins := by
  unfold instructionAt
  cases hw : index.whole? with
  | none => simp
  | some k =>
    by_cases hk : k < 0
    · simp only [Option.bind_some, hk, if_true, Option.some.injEq]
      constructor
      · intro h; cases h
      · rintro ⟨rfl, -⟩; omega
    · obtain ⟨j, rfl⟩ := Int.eq_ofNat_of_zero_le (Int.not_lt.1 hk)
      simp only [Option.bind_some, hk, if_false, Int.toNat_natCast, Option.some.injEq, Int.natCast_inj]
      cases hb : c.body[j]? with
      | none =>
        simp only [Option.map_none]
        constructor
        · intro h; cases h
        · rintro ⟨rfl, h⟩; simp [hb] at h
      | some ins' =>
        simp only [Option.map_some, Except.ok.injEq, Prod.mk.injEq]
        constructor
        · rintro ⟨rfl, rfl⟩; exact ⟨rfl, hb⟩
        · rintro ⟨rfl, h⟩; exact ⟨rfl, Option.some.inj (hb.symm.trans h)⟩

theorem callAt_eq_ok {c : Context} {index : Json} {i n : Nat} : callAt c index = .ok (i, n) ↔
    index.whole? = some (i : Int) ∧
      ∃ target args result site, c.body[i]? = some (.invoke target args result site) ∧ n = args.length := by
  unfold callAt
  rw [bind_eq_ok]
  constructor
  · rintro ⟨⟨j, ins⟩, hj, h⟩
    obtain ⟨hw, hb⟩ := instructionAt_eq_ok.1 hj
    split at h
    case h_2 => cases h
    case h_1 heq =>
      obtain ⟨rfl, rfl⟩ := Prod.mk.inj heq
      obtain ⟨rfl, rfl⟩ := Prod.mk.inj (Except.ok.inj h)
      exact ⟨hw, _, _, _, _, hb, rfl⟩
  · rintro ⟨hw, target, args, result, site, hb, rfl⟩
    exact ⟨_, instructionAt_eq_ok.2 ⟨hw, hb⟩, rfl⟩

/-- The statements that the factories make of positions in a context, with the positions as they were given. -/
inductive Sited (c : Context) (index position : Json) : Statement → Prop
  | normal {i : Nat} {ins : Instruction} : index.whole? = some (i : Int) → c.body[i]? = some ins →
      Sited c index position ⟨c, .normal i, ⟨Spelling.of index, none⟩⟩
  | returned {i : Nat} : index.whole? = some (i : Int) → c.HasCall i →
      Sited c index position ⟨c, .returned i, ⟨Spelling.of index, none⟩⟩
  | argument {i k : Nat} {target : Method} {args : List Int} {result : Option Int} {site : Option CallSite} :
      index.whole? = some (i : Int) → c.body[i]? = some (.invoke target args result site) →
      position.position? = some k → k < args.length →
      Sited c index position ⟨c, .argument i k, ⟨Spelling.of index, Spelling.of position⟩⟩
  | param {k : Nat} : index.position? = some k → k < c.procedure.params →
      Sited c index position ⟨c, .param k, ⟨Spelling.of index, none⟩⟩
  | entry : Sited c index position (.of c .entry)
  | exit : Sited c index position (.of c .exit)

variable {kind : StatementKind} {c : Context} {index position : Json} {s : Statement}

/-- The factory of a kind makes the statement exactly if it is of this kind and at these positions. -/
theorem ofPositions_eq_ok : ofPositions kind c index position = .ok s ↔ s.kind = kind ∧ s.Sited c index position := by
  constructor
  · intro h
    cases kind with
    | normal =>
      simp only [ofPositions, normalAt, bind_eq_ok] at h
      obtain ⟨⟨i, ins⟩, hi, h⟩ := h
      obtain ⟨hw, hb⟩ := instructionAt_eq_ok.1 hi
      exact Except.ok.inj h ▸ ⟨rfl, .normal hw hb⟩
    | returned =>
      simp only [ofPositions, returnedAt, bind_eq_ok] at h
      obtain ⟨⟨i, n⟩, hi, h⟩ := h
      obtain ⟨hw, target, args, result, site, hb, -⟩ := callAt_eq_ok.1 hi
      exact Except.ok.inj h ▸ ⟨rfl, .returned hw ⟨target, args, result, site, hb⟩⟩
    | argument =>
      simp only [ofPositions, argumentAt, bind_eq_ok] at h
      obtain ⟨⟨i, n⟩, hi, found, hk, h⟩ := h
      obtain ⟨hw, target, args, result, site, hb, rfl⟩ := callAt_eq_ok.1 hi
      cases found with
      | none => cases h
      | some k =>
        obtain ⟨hp, hlt⟩ := positionAmong_eq_ok.1 hk
        exact Except.ok.inj h ▸ ⟨rfl, .argument hw hb hp hlt⟩
    | param =>
      simp only [ofPositions, paramAt, bind_eq_ok] at h
      obtain ⟨found, hk, h⟩ := h
      cases found with
      | none => cases h
      | some k =>
        obtain ⟨hp, hlt⟩ := positionAmong_eq_ok.1 hk
        exact Except.ok.inj h ▸ ⟨rfl, .param hp hlt⟩
    | entry => exact Except.ok.inj h ▸ ⟨rfl, .entry⟩
    | exit => exact Except.ok.inj h ▸ ⟨rfl, .exit⟩
  · rintro ⟨rfl, hs⟩
    cases hs with
    | normal hw hb =>
      simp only [kind, Point.kind, ofPositions, normalAt, instructionAt_eq_ok.2 ⟨hw, hb⟩]
      rfl
    | returned hw hi =>
      obtain ⟨target, args, result, site, hb⟩ := hi
      simp only [kind, Point.kind, ofPositions, returnedAt, callAt_eq_ok.2 ⟨hw, target, args, result, site, hb, rfl⟩]
      rfl
    | @argument i k target args result site hw hb hp hk =>
      simp only [kind, Point.kind, ofPositions, argumentAt, callAt_eq_ok.2 ⟨hw, target, args, result, site, hb, rfl⟩]
      simp only [bind, Except.bind, positionAmong_eq_ok.2 ⟨hp, hk⟩]
      rfl
    | param hp hk =>
      simp only [kind, Point.kind, ofPositions, paramAt, positionAmong_eq_ok.2 ⟨hp, hk⟩]
      rfl
    | entry => rfl
    | exit => rfl

theorem Sited.context_eq (h : s.Sited c index position) : s.context = c := by
  cases h with
  | _ => rfl

theorem Sited.in (h : s.Sited c index position) : s.point.In c := by
  cases h with
  | normal _ hb => exact (List.getElem?_eq_some_iff.1 hb).1
  | returned _ hi => exact hi
  | argument _ hb _ hk => exact ⟨_, _, _, _, hb, hk⟩
  | param _ hk => exact hk
  | entry => trivial
  | exit => trivial

end Statement

namespace CallGraph

/-- A statement of a call graph: a point that exists, in one of its nodes, with positions that are integers. -/
structure Holds (g : CallGraph) (s : Statement) : Prop where
  node : s.context ∈ g.nodes
  point : s.point.In s.context
  plain : s.spelling = {}

/-- The statement is what a factory makes of integer positions in a node. -/
def Made (g : CallGraph) (s : Statement) : Prop :=
  ∃ c ∈ g.nodes, ∃ (kind : StatementKind) (index position : Int),
    Statement.ofPositions kind c (.int index) (.int position) = .ok s

variable {g : CallGraph} {c : Context}

theorem Holds.of {p : Point} (hc : c ∈ g.nodes) (hp : p.In c) : g.Holds (.of c p) := ⟨hc, hp, rfl⟩

theorem Holds.eq_of {s : Statement} (h : g.Holds s) : s = .of s.context s.point := by
  obtain ⟨c, p, sp⟩ := s
  rw [show sp = {} from h.plain]

theorem WellFormed.exactOn_holds (hg : g.WellFormed) : ExactOn {s | g.Holds s} := by
  intro s hs t ht hst
  have hk := Statement.beq_iff.1 hst
  simp only [Statement.key, Prod.mk.injEq] at hk
  have hc : s.context = t.context := hg.eq_of_beq hs.node ht.node (Context.beq_iff.2 hk.1)
  rw [hs.eq_of, ht.eq_of, hc, hk.2.1]

theorem Made.holds {s : Statement} (h : g.Made s) : g.Holds s := by
  obtain ⟨c, hc, kind, index, position, h⟩ := h
  have hs := (Statement.ofPositions_eq_ok.1 h).2
  refine ⟨hs.context_eq ▸ hc, hs.context_eq ▸ hs.in, ?_⟩
  cases hs with
  | _ => rfl

/-- Every statement of the call graph is made by a factory. -/
theorem Holds.made {s : Statement} (h : g.Holds s) : g.Made s := by
  obtain ⟨c, p, sp⟩ := s
  obtain ⟨hc, hp, rfl⟩ := h
  cases p with
  | normal i => exact ⟨c, hc, .normal, i, 0, Statement.ofPositions_eq_ok.2 ⟨rfl, .normal rfl (List.getElem?_eq_getElem hp)⟩⟩
  | returned i => exact ⟨c, hc, .returned, i, 0, Statement.ofPositions_eq_ok.2 ⟨rfl, .returned rfl hp⟩⟩
  | argument i k =>
    obtain ⟨target, args, result, site, hi, hk⟩ := hp
    refine ⟨c, hc, .argument, i, k, Statement.ofPositions_eq_ok.2 ⟨rfl, .argument rfl hi ?_ hk⟩⟩
    simp [Json.position?]
  | param k =>
    refine ⟨c, hc, .param, k, 0, Statement.ofPositions_eq_ok.2 ⟨rfl, .param ?_ hp⟩⟩
    simp [Json.position?]
  | entry => exact ⟨c, hc, .entry, 0, 0, rfl⟩
  | exit => exact ⟨c, hc, .exit, 0, 0, rfl⟩

end CallGraph

/-! ## How many there are -/

/-- The points of a procedure with so many parameters, instructions and arguments at each instruction. -/
def Point.upTo (params size args : Nat) : List Point :=
  [.entry, .exit] ++ (List.range params).map .param ++
    (List.range size).flatMap fun i => [.normal i, .returned i] ++ (List.range args).map (.argument i)

theorem Point.length_upTo (params size args : Nat) :
    (upTo params size args).length = 2 + params + size * (2 + args) := by
  simp only [upTo, List.length_append, List.length_map, List.length_range, List.length_flatMap, List.length_cons,
    List.length_nil, List.map_const', List.sum_replicate_nat]

theorem Point.In.mem_upTo {c : Context} {p : Point} (h : p.In c) {params size args : Nat}
    (hparams : c.procedure.params ≤ params) (hsize : c.body.length ≤ size)
    (hargs : ∀ ins ∈ c.body, DependenceGraph.argumentCount ins ≤ args) : p ∈ upTo params size args := by
  have hlt : ∀ {i : Nat} {ins : Instruction}, c.body[i]? = some ins → i < size := fun hi =>
    Nat.lt_of_lt_of_le (List.getElem?_eq_some_iff.1 hi).1 hsize
  cases p with
  | normal i => simp [upTo, Nat.lt_of_lt_of_le h hsize]
  | returned i =>
    obtain ⟨target, vs, result, site, hi⟩ := h
    simp [upTo, hlt hi]
  | argument i k =>
    obtain ⟨target, vs, result, site, hi, hk⟩ := h
    have hn : vs.length ≤ args := hargs _ (List.mem_of_getElem? hi)
    simp only [upTo, List.mem_append, List.mem_flatMap, List.mem_map, List.mem_range]
    exact .inr ⟨i, hlt hi, .inr ⟨k, by omega, rfl⟩⟩
  | param k => simp [upTo, Nat.lt_of_lt_of_le h hparams]
  | entry => simp [upTo]
  | exit => simp [upTo]

namespace DependenceGraph

theorem foldl_max_le (xs : List Nat) : ∀ m : Nat, m ≤ xs.foldl max m ∧ ∀ n ∈ xs, n ≤ xs.foldl max m := by
  induction xs with
  | nil => intro m; simp
  | cons x xs ih =>
    intro m
    obtain ⟨h₁, h₂⟩ := ih (max m x)
    rw [List.foldl_cons]
    refine ⟨by omega, fun n hn => ?_⟩
    rcases List.mem_cons.1 hn with rfl | hn
    · omega
    · exact h₂ n hn

theorem le_largest {xs : List Nat} {n : Nat} (h : n ∈ xs) : n ≤ largest xs := (foldl_max_le xs 0).2 n h

variable {g : DependenceGraph}

/-- All statements of the call graph are in a list that the bound of a search leaves room beside: for each seed, for
itself and for a statement of each node. -/
theorem exists_statements (g : DependenceGraph) (seeds : List Statement) (x : Index) :
    ∃ l : List Statement, l.length + seeds.length * (1 + g.calls.nodes.length) ≤ g.statementBound seeds x ∧
      ∀ s, g.calls.Holds s → s ∈ l := by
  let ps := g.proceduresInReach seeds x
  let points := Point.upTo (largest (ps.map (·.params))) (largest (ps.map (·.body.length)))
    (largest (ps.map fun p => largest (p.body.map argumentCount)))
  refine ⟨g.calls.nodes.flatMap fun c => points.map (Statement.of c), ?_, fun s hs => ?_⟩
  · simp only [List.length_flatMap, List.length_map, List.map_const', List.sum_replicate_nat, points, Point.length_upTo]
    unfold statementBound
    dsimp only [ps]
    omega
  -- the bound is taken over more procedures than those of the nodes
  · have hp : s.context.procedure ∈ ps := by
      simp only [ps, proceduresInReach, List.mem_append, List.mem_map]
      exact .inl (.inl (.inl ⟨s.context, hs.node, rfl⟩))
    have hm : s.point ∈ points := by
      refine hs.point.mem_upTo (le_largest (List.mem_map_of_mem hp)) (le_largest (List.mem_map.2 ⟨_, hp, rfl⟩)) ?_
      intro ins hins
      exact Nat.le_trans (le_largest (List.mem_map_of_mem hins)) (le_largest (List.mem_map.2 ⟨_, hp, rfl⟩))
    rw [hs.eq_of]
    exact List.mem_flatMap.2 ⟨s.context, hs.node, List.mem_map.2 ⟨s.point, hm, rfl⟩⟩

theorem finite_holds (g : DependenceGraph) : {s | g.calls.Holds s}.Finite := by
  obtain ⟨l, -, hl⟩ := g.exists_statements [] {}
  exact (List.finite_toSet l).subset hl

theorem ncard_holds_le (g : DependenceGraph) (seeds : List Statement) (x : Index) :
    {s | g.calls.Holds s}.ncard ≤ g.statementBound seeds x := by
  classical
  obtain ⟨l, hlen, hl⟩ := g.exists_statements seeds x
  have hsub : {s | g.calls.Holds s} ⊆ (l.toFinset : Set Statement) := fun s hs => by simpa using hl s hs
  calc {s | g.calls.Holds s}.ncard
      ≤ (l.toFinset : Set Statement).ncard := Set.ncard_le_ncard hsub (Finset.finite_toSet _)
    _ = l.toFinset.card := Set.ncard_coe_finset _
    _ ≤ l.length := List.toFinset_card_le l
    _ ≤ g.statementBound seeds x := by omega

end DependenceGraph
end ForwardSlicing
