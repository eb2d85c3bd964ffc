import Assemblage.Lowering.Temporaries
import Assemblage.Proofs.Evaluation.Move

/-!
# The place of the read

What the search for a read tells.  If it ends without the variable, the variable
does not occur, and as long as nothing has been written the expression writes
nothing.  If it finds a safe place, that place is always reached, and what is
evaluated before it writes nothing.  It may still read what a moved value writes.
-/

namespace Assemblage.Lowering.Temporaries

open Evaluation

def occurrences (id : VariableId) (nodes : List Expr) : Nat :=
  nodes.countP (·.isVariable id)

theorem occurrences_append (id : VariableId) (left right : List Expr) :
    occurrences id (left ++ right) = occurrences id left + occurrences id right :=
  List.countP_append

theorem occurrences_nodes (id : VariableId) (expr : Expr) :
    occurrences id expr.nodes = (if expr.isVariable id = true then 1 else 0) +
      occurrences id (expr.children.flatMap Expr.nodes) := by
  rw [Expr.nodes_eq_cons, occurrences, List.countP_cons, Nat.add_comm, occurrences]

/-- An expression avoids what does not occur in it. -/
theorem avoids_iff {id : VariableId} {expr : Expr} :
    expr.Avoids [id] ↔ occurrences id expr.nodes = 0 := by
  rw [occurrences, List.countP_eq_zero, Expr.Avoids]
  constructor
  · intro h node hnode hvariable
    refine h id List.mem_cons_self (List.mem_filterMap.2 ⟨node, hnode, ?_⟩)
    exact Expr.isVariable_iff_access?.1 hvariable
  · intro h other hother hread
    rw [List.mem_singleton.1 hother] at hread
    obtain ⟨node, hnode, haccess⟩ := List.mem_filterMap.1 hread
    exact h node hnode (Expr.isVariable_iff_access?.2 haccess)

theorem avoids_iff_mentions {id : VariableId} {expr : Expr} :
    expr.Avoids [id] ↔ expr.mentions id = false := by
  rw [avoids_iff, occurrences, List.countP_eq_zero, Expr.mentions, List.any_eq_false]

theorem avoids_of_children {id : VariableId} {expr : Expr} (h : expr.isVariable id = false)
    (hchildren : ∀ child ∈ expr.children, child.Avoids [id]) : expr.Avoids [id] := by
  intro other hother hread
  rw [Expr.reads_eq, List.mem_append] at hread
  cases hread with
  | inl hread =>
    rw [List.mem_singleton.1 hother, Option.mem_toList] at hread
    rw [Expr.isVariable_iff_access?.2 hread] at h
    exact Bool.noConfusion h
  | inr hread =>
    obtain ⟨child, hchild, hread⟩ := List.mem_flatMap.1 hread
    exact hchildren child hchild other hother hread

/-- What an outcome of the search says about the expressions it went through. -/
def Tells (id : VariableId) (guarded written : Bool) (exprs : List Expr) : Reach → Prop
  | .absent after => (∀ expr ∈ exprs, expr.Avoids [id]) ∧
      (after = false → written = false ∧ ∀ expr ∈ exprs, expr.writes = [])
  | .found safe => (∃ expr ∈ exprs, ¬expr.Avoids [id]) ∧
      (safe = true → guarded = false ∧ written = false)

variable {id : VariableId}

theorem tells_nil (guarded written : Bool) : Tells id guarded written [] (.absent written) :=
  ⟨fun _ h => absurd h List.not_mem_nil, fun h => ⟨h, fun _ h => absurd h List.not_mem_nil⟩⟩

/-- The search goes on with the next expressions, perhaps behind a guard. -/
theorem Tells.andThen {guarded inner written : Bool} {first second : List Expr} {reach : Reach}
    {next : Bool → Reach} (h : Tells id guarded written first reach)
    (hguard : inner = false → guarded = false)
    (hnext : ∀ after, Tells id inner after second (next after)) :
    Tells id guarded written (first ++ second) (reach.andThen next) := by
  cases reach with
  | found safe =>
    obtain ⟨⟨expr, hexpr, hmentions⟩, hsafe⟩ := h
    exact ⟨⟨expr, List.mem_append_left _ hexpr, hmentions⟩, hsafe⟩
  | absent after =>
    obtain ⟨havoids, hquiet⟩ := h
    have hrest := hnext after
    rw [Reach.andThen]
    cases hreach : next after with
    | found safe =>
      rw [hreach] at hrest
      obtain ⟨⟨expr, hexpr, hmentions⟩, hsafe⟩ := hrest
      refine ⟨⟨expr, List.mem_append_right _ hexpr, hmentions⟩, fun heq => ?_⟩
      obtain ⟨hinner, hafter⟩ := hsafe heq
      exact ⟨hguard hinner, (hquiet hafter).1⟩
    | absent last =>
      rw [hreach] at hrest
      obtain ⟨hothers, hlast⟩ := hrest
      refine ⟨fun expr hexpr => ?_, fun heq => ?_⟩
      · cases List.mem_append.1 hexpr with
        | inl hexpr => exact havoids expr hexpr
        | inr hexpr => exact hothers expr hexpr
      · obtain ⟨hafter, hsecond⟩ := hlast heq
        obtain ⟨hwritten, hfirst⟩ := hquiet hafter
        refine ⟨hwritten, fun expr hexpr => ?_⟩
        cases List.mem_append.1 hexpr with
        | inl hexpr => exact hfirst expr hexpr
        | inr hexpr => exact hsecond expr hexpr

/-- A node that is not the variable tells what its operands tell, and writes by
itself only where that is reported. -/
theorem Tells.node {guarded written : Bool} {expr : Expr} {reach : Reach}
    (effect : Bool → Bool) (h : Tells id guarded written expr.children reach)
    (hvariable : expr.isVariable id = false)
    (heffect : ∀ after, effect after = false → after = false ∧ expr.written? = none) :
    Tells id guarded written [expr] (reach.andThen fun after => .absent (effect after)) := by
  cases reach with
  | found safe =>
    obtain ⟨⟨child, hchild, hmentions⟩, hsafe⟩ := h
    exact ⟨⟨expr, List.mem_cons_self, fun havoids => hmentions (havoids.child hchild)⟩, hsafe⟩
  | absent after =>
    obtain ⟨havoids, hquiet⟩ := h
    refine ⟨fun other hother => ?_, fun heq => ?_⟩
    · rw [List.mem_singleton.1 hother]
      exact avoids_of_children hvariable havoids
    · obtain ⟨hafter, hwritten⟩ := heffect after heq
      obtain ⟨hbefore, hchildren⟩ := hquiet hafter
      refine ⟨hbefore, fun other hother => ?_⟩
      rw [List.mem_singleton.1 hother, Expr.writes_eq, hwritten,
        List.flatMap_eq_nil_iff.2 hchildren]
      rfl

theorem andThen_absent (reach : Reach) : reach.andThen .absent = reach := by
  cases reach <;> rfl

/-- A node that writes nothing by itself. -/
theorem Tells.silent {guarded written : Bool} {expr : Expr} {reach : Reach}
    (h : Tells id guarded written expr.children reach) (hvariable : expr.isVariable id = false)
    (hwritten : expr.written? = none) : Tells id guarded written [expr] reach := by
  have hnode := h.node (fun after => after) hvariable fun after heq => ⟨heq, hwritten⟩
  rwa [andThen_absent] at hnode

/-- A node that writes in any case. -/
theorem Tells.effectful {guarded written : Bool} {expr : Expr} {reach : Reach}
    (h : Tells id guarded written expr.children reach) (hvariable : expr.isVariable id = false) :
    Tells id guarded written [expr] (reach.andThen fun _ => .absent true) :=
  h.node (fun _ => true) hvariable fun _ heq => Bool.noConfusion heq

/-- A list of expressions is told of as the expressions are, in order. -/
theorem tells_reachList {guarded written : Bool} {exprs : List Expr}
    (h : ∀ expr ∈ exprs, ∀ written,
      Tells id guarded written [expr] (reach id guarded written expr)) :
    Tells id guarded written exprs (reachList id guarded written exprs) := by
  induction exprs generalizing written with
  | nil => exact tells_nil guarded written
  | cons expr rest ih =>
    rw [reachList]
    apply (h expr List.mem_cons_self written).andThen (fun heq => heq)
    intro after
    exact ih fun other hother => h other (List.mem_cons_of_mem _ hother)

theorem tells_variable (guarded written : Bool) {expr : Expr} {other : VariableId}
    (h : expr.asVariable? = some other) :
    Tells id guarded written [expr]
      (if other = id then .found (!guarded && !written) else .absent written) := by
  have hvariable : expr.isVariable id = true ↔ other = id := by
    rw [Expr.isVariable_eq_true_iff, h, Option.some.injEq]
  by_cases heq : other = id
  · rw [if_pos heq]
    refine ⟨⟨expr, List.mem_cons_self, fun havoids => ?_⟩, fun hsafe => by simpa using hsafe⟩
    have hnot := havoids.not_isVariable List.mem_cons_self
    rw [hvariable.2 heq] at hnot
    exact Bool.noConfusion hnot
  · rw [if_neg heq]
    have hnot : expr.isVariable id = false := by
      rw [Bool.eq_false_iff]
      exact fun hsame => heq (hvariable.1 hsame)
    have hchildren : expr.children = [] := by
      exact Expr.children_eq_nil_of_isVariable (Expr.isVariable_eq_true_iff.2 h)
    have hsilent : expr.written? = none := by
      cases expr <;> first | rfl | cases h
    exact Tells.silent (hchildren ▸ tells_nil guarded written) hnot hsilent

/-- What the search through one expression tells. -/
theorem tells_reach (id : VariableId) (expr : Expr) : ∀ guarded written : Bool,
    Tells id guarded written [expr] (reach id guarded written expr) := by
  induction expr using Expr.induction_children with
  | step expr ih =>
    intro guarded written
    cases expr with
    | literal | self | staticField | defaultValue =>
      exact Tells.silent (tells_nil guarded written) rfl rfl
    | raw other => exact tells_variable guarded written rfl
    | bound other => exact tells_variable guarded written rfl
    | field target | copy target | cast _ target =>
      exact Tells.silent (ih target List.mem_cons_self guarded written) rfl rfl
    | element array index =>
      have harray := ih array List.mem_cons_self guarded written
      have hindex := ih index (List.mem_cons_of_mem _ List.mem_cons_self) guarded
      exact Tells.silent (harray.andThen (fun heq => heq) hindex) rfl rfl
    | staticCall method arguments =>
      have harguments :
          Tells id guarded written arguments (reachList id guarded written arguments) :=
        tells_reachList fun argument hargument => ih argument hargument guarded
      exact harguments.effectful rfl
    | create type arguments =>
      have harguments :
          Tells id guarded written arguments (reachList id guarded written arguments) :=
        tells_reachList fun argument hargument => ih argument hargument guarded
      exact harguments.effectful rfl
    | call target method arguments =>
      have htarget := ih target List.mem_cons_self guarded written
      have harguments : ∀ after,
          Tells id guarded after arguments (reachList id guarded after arguments) := fun after =>
        tells_reachList fun argument hargument =>
          ih argument (List.mem_cons_of_mem _ hargument) guarded
      exact (htarget.andThen (fun heq => heq) harguments).effectful rfl
    | binary op left right =>
      have hleft := ih left List.mem_cons_self guarded written
      have hright := ih right (List.mem_cons_of_mem _ List.mem_cons_self)
        (guarded || op.isShortCircuit)
      refine Tells.silent (hleft.andThen (fun heq => ?_) hright) rfl rfl
      exact (Bool.or_eq_false_iff.1 heq).1
    | unary op operand =>
      have hoperand := ih operand List.mem_cons_self guarded written
      apply hoperand.node (fun after => after || op.isMutating) rfl
      intro after heq
      obtain ⟨hafter, hop⟩ := Bool.or_eq_false_iff.1 heq
      exact ⟨hafter, by rw [Expr.written?, hop]; rfl⟩
    | assign op target value =>
      have htarget := ih target List.mem_cons_self guarded written
      have hvalue := ih value (List.mem_cons_of_mem _ List.mem_cons_self) guarded
      exact (htarget.andThen (fun heq => heq) hvalue).effectful rfl
    | conditional condition whenTrue whenFalse =>
      have hcondition := ih condition List.mem_cons_self guarded written
      have htrue := ih whenTrue (List.mem_cons_of_mem _ List.mem_cons_self) true
      have hfalse := ih whenFalse
        (List.mem_cons_of_mem _ (List.mem_cons_of_mem _ List.mem_cons_self)) true
      have hboth := hcondition.andThen (fun heq => Bool.noConfusion heq) htrue
      exact Tells.silent (hboth.andThen (fun heq => Bool.noConfusion heq) hfalse) rfl rfl

/-- A place found to be safe is always reached, and nothing is written before it. -/
theorem unguarded_of_found {guarded written : Bool} {expr : Expr}
    (h : reach id guarded written expr = .found true) : guarded = false ∧ written = false := by
  have htells := tells_reach id expr guarded written
  rw [h] at htells
  exact htells.2 rfl

/-- What is found occurs. -/
theorem not_avoids_of_found {guarded written safe : Bool} {expr : Expr}
    (h : reach id guarded written expr = .found safe) : ¬expr.Avoids [id] := by
  have htells := tells_reach id expr guarded written
  rw [h] at htells
  obtain ⟨⟨other, hother, hmentions⟩, -⟩ := htells
  rwa [List.mem_singleton.1 hother] at hmentions

/-- What is absent does not occur. -/
theorem avoids_of_absent {guarded written after : Bool} {expr : Expr}
    (h : reach id guarded written expr = .absent after) : expr.Avoids [id] := by
  have htells := tells_reach id expr guarded written
  rw [h] at htells
  exact htells.1 expr List.mem_cons_self

/-- Where nothing is written up to the end, nothing was written at the start. -/
theorem quiet_of_absent {guarded written : Bool} {expr : Expr}
    (h : reach id guarded written expr = .absent false) : written = false ∧ expr.writes = [] := by
  have htells := tells_reach id expr guarded written
  rw [h] at htells
  obtain ⟨hwritten, hquiet⟩ := htells.2 rfl
  exact ⟨hwritten, hquiet expr List.mem_cons_self⟩

/-! ## What comes before the place -/

mutual

/-- The expressions evaluated before the variable is read.  The target of a plain
assignment is not read itself, only what its place is made of is; the target of a
compound one is both. -/
def earlier (id : VariableId) : Expr → List Expr
  | .field operand .. | .unary _ operand | .copy operand | .cast _ operand
  | .conditional operand .. => earlier id operand
  | .element left right _ | .binary _ left right =>
    if left.mentions id then earlier id left else left :: earlier id right
  | .staticCall _ arguments | .create _ arguments => earlierOfList id arguments
  | .call target _ arguments =>
    if target.mentions id then earlier id target else target :: earlierOfList id arguments
  | .assign none target value =>
    if target.mentions id then earlier id target else target.children ++ earlier id value
  | .assign (some _) target value =>
    if target.mentions id then earlier id target
    else target.children ++ target :: earlier id value
  | _ => []

def earlierOfList (id : VariableId) : List Expr → List Expr
  | [] => []
  | expr :: rest =>
    if expr.mentions id then earlier id expr else expr :: earlierOfList id rest

end

theorem mentions_of_not_avoids {expr : Expr} (h : ¬expr.Avoids [id]) :
    expr.mentions id = true := by
  rwa [avoids_iff_mentions, Bool.not_eq_false] at h

theorem found_of_andThen_absent {reach : Reach} {effect : Bool → Bool} {safe : Bool}
    (h : (reach.andThen fun after => .absent (effect after)) = .found safe) :
    reach = .found safe := by
  cases reach with
  | found other => exact h
  | absent after => cases h

theorem found_of_andThen {reach : Reach} {next : Bool → Reach} {safe : Bool}
    (h : reach.andThen next = .found safe) :
    reach = .found safe ∨ ∃ after, reach = .absent after ∧ next after = .found safe := by
  cases reach with
  | found other => exact .inl h
  | absent after => exact .inr ⟨after, rfl, h⟩

/-- In a strict node the variable is found among the operands. -/
theorem reachList_children {guarded written safe : Bool} {expr : Expr}
    (hstrict : isStrict expr = true) (hvariable : expr.isVariable id = false)
    (h : reach id guarded written expr = .found safe) :
    reachList id guarded written expr.children = .found safe := by
  cases expr with
  | raw other | bound other =>
    rw [reach] at h
    split at h
    · rename_i heq
      rw [Expr.isVariable, Expr.asVariable?, heq, beq_self_eq_true] at hvariable
      exact Bool.noConfusion hvariable
    · cases h
  | literal | self | staticField | defaultValue => cases h
  | field target | copy target | cast _ target =>
    rw [reach] at h
    simp only [Expr.children, reachList]
    rw [andThen_absent, h]
  | element array index =>
    rw [reach] at h
    simp only [Expr.children, reachList, andThen_absent]
    exact h
  | staticCall | create =>
    rw [reach] at h
    exact found_of_andThen_absent h
  | call target method arguments =>
    rw [reach] at h
    exact found_of_andThen_absent h
  | binary op left right =>
    have hop : op.isShortCircuit = false := by simpa [isStrict] using hstrict
    rw [reach, hop, Bool.or_false] at h
    simp only [Expr.children, reachList, andThen_absent]
    exact h
  | unary op operand =>
    rw [reach] at h
    simp only [Expr.children, reachList]
    rw [andThen_absent, found_of_andThen_absent h]
  | assign | conditional => exact Bool.noConfusion hstrict

/-- A strict expression evaluates before the variable what its operands evaluate before it. -/
theorem earlier_eq_of_isStrict {expr : Expr} (hstrict : isStrict expr = true)
    (h : ∃ child ∈ expr.children, child.mentions id = true) :
    earlier id expr = earlierOfList id expr.children := by
  obtain ⟨child, hchild, hmentions⟩ := h
  cases expr with
  | literal | raw | bound | self | staticField | defaultValue =>
    exact absurd hchild List.not_mem_nil
  | field target | unary _ target | copy target | cast _ target =>
    rw [Expr.children, List.mem_singleton] at hchild
    rw [earlier, Expr.children, earlierOfList, ← hchild, if_pos hmentions]
  | staticCall | create => rw [earlier, Expr.children]
  | call => rw [earlier, Expr.children, earlierOfList]
  | element left right | binary _ left right =>
    rw [earlier, Expr.children, earlierOfList, earlierOfList, earlierOfList]
    by_cases hleft : left.mentions id = true
    · rw [if_pos hleft, if_pos hleft]
    · have hright : child = right := by
        cases List.mem_cons.1 hchild with
        | inl heq =>
          rw [heq] at hmentions
          exact absurd hmentions hleft
        | inr hmem => exact List.mem_singleton.1 hmem
      rw [if_neg hleft, if_neg hleft, ← hright, if_pos hmentions]
  | assign | conditional => exact Bool.noConfusion hstrict

/-- The list of operands around the one that holds the variable. -/
theorem split_of_reachList {written : Bool} {exprs : List Expr}
    (h : reachList id false written exprs = .found true) :
    written = false ∧ ∃ before operand after, exprs = before ++ operand :: after ∧
      (∀ expr ∈ before, expr.writes = [] ∧ expr.Avoids [id]) ∧
      reach id false false operand = .found true ∧
      earlierOfList id exprs = before ++ earlier id operand := by
  induction exprs generalizing written with
  | nil => cases h
  | cons expr rest ih =>
    rw [reachList] at h
    rcases found_of_andThen h with hfound | ⟨after, habsent, hrest⟩
    · obtain ⟨-, rfl⟩ := unguarded_of_found hfound
      have hmentions := mentions_of_not_avoids (not_avoids_of_found hfound)
      refine ⟨rfl, [], expr, rest, rfl, fun _ hmem => absurd hmem List.not_mem_nil, hfound, ?_⟩
      rw [earlierOfList, if_pos hmentions, List.nil_append]
    · obtain ⟨rfl, before, operand, later, rfl, hbefore, hoperand, hearlier⟩ := ih hrest
      obtain ⟨hwritten, hquiet⟩ := quiet_of_absent habsent
      have havoids := avoids_of_absent habsent
      refine ⟨hwritten, expr :: before, operand, later, rfl, fun other hother => ?_, hoperand, ?_⟩
      · cases List.mem_cons.1 hother with
        | inl heq =>
          subst heq
          exact ⟨hquiet, havoids⟩
        | inr hother => exact hbefore other hother
      · have hnot : ¬expr.mentions id = true := by
          rw [avoids_iff_mentions.1 havoids]
          exact Bool.false_ne_true
        rw [earlierOfList, if_neg hnot, hearlier, List.cons_append]

/-- Where the variable occurs once, an expression beside its place avoids it. -/
theorem avoids_beside {expr other : Expr} (hmentions : ¬expr.Avoids [id])
    (h : occurrences id expr.nodes + occurrences id other.nodes ≤ 1) : other.Avoids [id] := by
  rw [avoids_iff] at hmentions ⊢
  omega

theorem avoids_of_occurrences_eq_zero {exprs : List Expr}
    (h : occurrences id (exprs.flatMap Expr.nodes) = 0) : ∀ expr ∈ exprs, expr.Avoids [id] := by
  intro expr hexpr
  rw [avoids_iff, occurrences, List.countP_eq_zero]
  rw [occurrences, List.countP_eq_zero] at h
  exact fun node hnode => h node (List.mem_flatMap.2 ⟨expr, hexpr, hnode⟩)

theorem not_mem_writes_of_child {expr child : Expr} (h : Access.slot id ∉ expr.writes)
    (hchild : child ∈ expr.children) : Access.slot id ∉ child.writes := by
  intro hmem
  apply h
  rw [Expr.writes_eq]
  exact List.mem_append_right _ (List.mem_flatMap.2 ⟨child, hchild, hmem⟩)

theorem occurrences_child_le {expr child : Expr} (hchild : child ∈ expr.children) :
    occurrences id child.nodes ≤ occurrences id expr.nodes := by
  obtain ⟨before, after, hchildren⟩ := List.append_of_mem hchild
  rw [occurrences_nodes id expr, hchildren, List.flatMap_append, List.flatMap_cons,
    occurrences_append, occurrences_append]
  omega

/-- The variable occurs once, at a place found to be safe, and what comes earlier is
stable. -/
structure Placeable (id : VariableId) (stable : Expr → Prop) (expr : Expr) : Prop where
  found : reach id false false expr = .found true
  once : occurrences id expr.nodes ≤ 1
  unwritten : Access.slot id ∉ expr.writes
  earlier : ∀ other ∈ earlier id expr, other.writes = [] → other.Avoids [id] → stable other

variable {stable : Expr → Prop}

theorem Placeable.child {expr child : Expr} (h : Placeable id stable expr)
    (hchild : child ∈ expr.children) (hfound : reach id false false child = .found true)
    (hearlier : ∀ other ∈ Temporaries.earlier id child, other ∈ Temporaries.earlier id expr) :
    Placeable id stable child where
  found := hfound
  once := Nat.le_trans (occurrences_child_le hchild) h.once
  unwritten := not_mem_writes_of_child h.unwritten hchild
  earlier other hother := h.earlier other (hearlier other hother)

/-- Beside an operand that mentions the variable no other one does. -/
theorem Placeable.occurrences_children {expr : Expr} (h : Placeable id stable expr) :
    occurrences id (expr.children.flatMap Expr.nodes) ≤ 1 := by
  have honce := h.once
  rw [occurrences_nodes] at honce
  omega

theorem receives_strict {expr : Expr} (h : Placeable id stable expr)
    (hstrict : isStrict expr = true) (hvariable : expr.isVariable id = false)
    (ih : ∀ child ∈ expr.children, Placeable id stable child → child.Receives id stable) :
    expr.Receives id stable := by
  obtain ⟨-, before, operand, after, hchildren, hbefore, hoperand, hearlier⟩ :=
    split_of_reachList (reachList_children hstrict hvariable h.found)
  have hmem : operand ∈ expr.children := by
    rw [hchildren]
    exact List.mem_append_right _ List.mem_cons_self
  have hmentions := not_avoids_of_found hoperand
  have hpositive : occurrences id operand.nodes ≠ 0 := fun heq => hmentions (avoids_iff.2 heq)
  have hall : earlier id expr = before ++ earlier id operand := by
    rw [earlier_eq_of_isStrict hstrict ⟨operand, hmem, mentions_of_not_avoids hmentions⟩, hearlier]
  have hstable : ∀ other ∈ before, stable other := by
    intro other hother
    obtain ⟨hquiet, havoids⟩ := hbefore other hother
    apply h.earlier other _ hquiet havoids
    rw [hall]
    exact List.mem_append_left _ hother
  have hreceives : operand.Receives id stable := by
    apply ih operand hmem
    apply h.child hmem hoperand
    intro other hother
    rw [hall]
    exact List.mem_append_right _ hother
  have hlater : ∀ other ∈ after, other.Avoids [id] := by
    have honce := h.occurrences_children
    rw [hchildren, List.flatMap_append, List.flatMap_cons, occurrences_append,
      occurrences_append] at honce
    exact avoids_of_occurrences_eq_zero (by omega)
  exact .operand hstrict hchildren hstable hreceives hlater

theorem receives_lazy {op : BinaryOp} {left right : Expr}
    (h : Placeable id stable (.binary op left right)) (hlazy : op.isShortCircuit = true)
    (ih : Placeable id stable left → left.Receives id stable) :
    (Expr.binary op left right).Receives id stable := by
  have hfound := h.found
  have honce := h.occurrences_children
  rw [reach, hlazy, Bool.or_true] at hfound
  simp only [Expr.children, List.flatMap_cons, List.flatMap_nil, occurrences_append] at honce
  rcases found_of_andThen hfound with hleft | ⟨_, _, hright⟩
  · have hmentions := not_avoids_of_found hleft
    have hplaceable : Placeable id stable left := by
      apply h.child List.mem_cons_self hleft
      intro other hother
      rwa [earlier, if_pos (mentions_of_not_avoids hmentions)]
    exact .left hlazy (ih hplaceable) (avoids_beside hmentions (by omega))
  · exact Bool.noConfusion (unguarded_of_found hright).1

theorem receives_conditional {condition whenTrue whenFalse : Expr}
    (h : Placeable id stable (.conditional condition whenTrue whenFalse))
    (ih : Placeable id stable condition → condition.Receives id stable) :
    (Expr.conditional condition whenTrue whenFalse).Receives id stable := by
  have hfound := h.found
  have honce := h.occurrences_children
  rw [reach] at hfound
  simp only [Expr.children, List.flatMap_cons, List.flatMap_nil, occurrences_append] at honce
  rcases found_of_andThen hfound with hfirst | ⟨_, _, hfalse⟩
  · rcases found_of_andThen hfirst with hcondition | ⟨_, _, htrue⟩
    · have hmentions := not_avoids_of_found hcondition
      have hplaceable : Placeable id stable condition :=
        h.child List.mem_cons_self hcondition fun other hother => by rwa [earlier]
      exact .condition (ih hplaceable) (avoids_beside hmentions (by omega))
        (avoids_beside hmentions (by omega))
    · exact Bool.noConfusion (unguarded_of_found htrue).1
  · exact Bool.noConfusion (unguarded_of_found hfalse).1

theorem receives_updated {op : UnaryOp} {operand : Expr}
    (h : Placeable id stable (.unary op operand)) (hmutating : op.isMutating = true)
    (ih : Placeable id stable operand → operand.Receives id stable) :
    (Expr.unary op operand).Receives id stable := by
  have hfound := h.found
  have hother : operand.isVariable id = false := by
    rw [Bool.eq_false_iff]
    intro hsame
    apply h.unwritten
    rw [Expr.writes_eq, Expr.written?, hmutating, if_pos rfl, Expr.isVariable_iff_access?.1 hsame]
    exact List.mem_append_left _ List.mem_cons_self
  rw [reach] at hfound
  have hplaceable : Placeable id stable operand :=
    h.child List.mem_cons_self (found_of_andThen_absent hfound) fun other hother => by rwa [earlier]
  exact .updated hmutating hother (ih hplaceable)

/-- The variable is read in what is assigned, after the place has been evaluated. -/
theorem receives_assigned {op : Option BinaryOp} {target value : Expr}
    (h : Placeable id stable (.assign op target value)) (hquiet : target.writes = [])
    (havoids : target.Avoids [id]) (hfound : reach id false false value = .found true)
    (ih : Placeable id stable value → value.Receives id stable) :
    (Expr.assign op target value).Receives id stable := by
  have hvalue : value ∈ (Expr.assign op target value).children :=
    List.mem_cons_of_mem _ List.mem_cons_self
  have hnot : ¬target.mentions id = true := by
    rw [avoids_iff_mentions.1 havoids]
    exact Bool.false_ne_true
  cases op with
  | none =>
    have hall : earlier id (.assign none target value) = target.children ++ earlier id value := by
      rw [earlier, if_neg hnot]
    have hstable : ∀ child ∈ target.children, stable child := by
      intro child hchild
      apply h.earlier child _ (writes_of_child hquiet hchild) (havoids.child hchild)
      rw [hall]
      exact List.mem_append_left _ hchild
    have hplaceable : Placeable id stable value := by
      apply h.child hvalue hfound
      intro other hother
      rw [hall]
      exact List.mem_append_right _ hother
    exact .assigned hquiet havoids hstable (ih hplaceable)
  | some op =>
    have hall : earlier id (.assign (some op) target value) =
        target.children ++ target :: earlier id value := by
      rw [earlier, if_neg hnot]
    have hstable : ∀ child ∈ target.children, stable child := by
      intro child hchild
      apply h.earlier child _ (writes_of_child hquiet hchild) (havoids.child hchild)
      rw [hall]
      exact List.mem_append_left _ hchild
    have hheld : stable target := by
      apply h.earlier target _ hquiet havoids
      rw [hall]
      exact List.mem_append_right _ List.mem_cons_self
    have hplaceable : Placeable id stable value := by
      apply h.child hvalue hfound
      intro other hother
      rw [hall]
      exact List.mem_append_right _ (List.mem_cons_of_mem _ hother)
    exact .combined hstable hheld (ih hplaceable)

theorem receives_assign {op : Option BinaryOp} {target value : Expr}
    (h : Placeable id stable (.assign op target value))
    (ih : ∀ child ∈ (Expr.assign op target value).children, Placeable id stable child →
      child.Receives id stable) : (Expr.assign op target value).Receives id stable := by
  have hfound := h.found
  have honce := h.occurrences_children
  have hother : target.isVariable id = false := by
    rw [Bool.eq_false_iff]
    intro hsame
    apply h.unwritten
    rw [Expr.writes_eq, Expr.written?, Expr.isVariable_iff_access?.1 hsame]
    exact List.mem_append_left _ List.mem_cons_self
  rw [reach] at hfound
  simp only [Expr.children, List.flatMap_cons, List.flatMap_nil, occurrences_append] at honce
  rcases found_of_andThen (found_of_andThen_absent hfound) with htarget | ⟨written, habsent, hvalue⟩
  · have hmentions := not_avoids_of_found htarget
    have hall : earlier id (.assign op target value) = earlier id target := by
      cases op <;> rw [earlier, if_pos (mentions_of_not_avoids hmentions)]
    have hplaceable : Placeable id stable target :=
      h.child List.mem_cons_self htarget fun other hmem => by rwa [hall]
    exact .target hother (ih target List.mem_cons_self hplaceable)
      (avoids_beside hmentions (by omega))
  · obtain ⟨-, rfl⟩ := unguarded_of_found hvalue
    obtain ⟨-, hquiet⟩ := quiet_of_absent habsent
    exact receives_assigned h hquiet (avoids_of_absent habsent) hvalue
      (ih value (List.mem_cons_of_mem _ List.mem_cons_self))

/-- An expression in which the value can be placed receives it. -/
theorem receives_of_placeable {expr : Expr} (h : Placeable id stable expr) :
    expr.Receives id stable := by
  induction expr using Expr.induction_children with
  | step expr ih =>
    by_cases hvariable : expr.isVariable id = true
    · exact .read hvariable
    · by_cases hstrict : isStrict expr = true
      · exact receives_strict h hstrict (Bool.eq_false_iff.2 hvariable) ih
      · cases expr with
        | binary op left right =>
          have hlazy : op.isShortCircuit = true := by simpa [isStrict] using hstrict
          exact receives_lazy h hlazy (ih left List.mem_cons_self)
        | conditional condition whenTrue whenFalse =>
          exact receives_conditional h (ih condition List.mem_cons_self)
        | unary op operand =>
          have hmutating : op.isMutating = true := by simpa [isStrict] using hstrict
          exact receives_updated h hmutating (ih operand List.mem_cons_self)
        | assign op target value => exact receives_assign h ih
        | _ => exact absurd rfl hstrict

end Assemblage.Lowering.Temporaries
