import FuzzPolicy.Proofs.Generator.Walk
import FuzzPolicy.Proofs.Policy.Ceilings

/-!
# The walk of the generator ends

Two measures carry the recursion. An expression has less room below it at every level, until at the last
one every node is a leaf. A scope has less room under the two depth limits than the scope around it,
until neither a loop nor a conditional may stand in it. What happens at one level is a count: operands,
scopes next to each other, statements.

How much is done is paid for by statements. Each of them pays for the scopes that it opens itself and for
the nodes of its expression; what goes on inside of those scopes is paid for by the statements in them.
`Policy.Reaches` keeps this account from one point of a walk to a later one, and `Policy.EndsAt` says of a
part of the walk that it comes to an end within its account.

Nothing is asked of the tables, so this holds of every policy, accepted or not.
-/

namespace FuzzPolicy

open Draw

namespace Place

/-- Whether a scope may stand there. -/
structure Within (here : Place) (l : Limits) : Prop where
  loopDepth : here.loopDepth ≤ l.loopDepthLimit
  ifElseDepth : here.ifElseDepth ≤ l.ifElseDepthLimit
  /-- Every scope around it is a loop or a conditional. -/
  nesting : here.nesting ≤ here.loopDepth + here.ifElseDepth

/-- How much deeper scopes may be nested there. -/
def room (here : Place) (l : Limits) : Nat :=
  (l.loopDepthLimit - here.loopDepth) + (l.ifElseDepthLimit - here.ifElseDepth)

variable {here : Place} {l : Limits}

theorem Within.inLoops (h : here.Within l) {loops : Nat} (hpos : 0 < loops)
    (hroom : here.loopDepth + loops ≤ l.loopDepthLimit) : (here.inLoops loops).Within l where
  loopDepth := hroom
  ifElseDepth := h.ifElseDepth
  nesting := by
    have hnesting := h.nesting
    change here.nesting + 1 ≤ here.loopDepth + loops + here.ifElseDepth
    omega

theorem Within.inIfElse (h : here.Within l) (hroom : here.ifElseDepth < l.ifElseDepthLimit) :
    here.inIfElse.Within l where
  loopDepth := h.loopDepth
  ifElseDepth := hroom
  nesting := by
    have hnesting := h.nesting
    change here.nesting + 1 ≤ here.loopDepth + (here.ifElseDepth + 1)
    omega

theorem room_inLoops_lt {loops : Nat} (hpos : 0 < loops)
    (hroom : here.loopDepth + loops ≤ l.loopDepthLimit) :
    (here.inLoops loops).room l < here.room l := by
  change (l.loopDepthLimit - (here.loopDepth + loops)) + (l.ifElseDepthLimit - here.ifElseDepth) <
    (l.loopDepthLimit - here.loopDepth) + (l.ifElseDepthLimit - here.ifElseDepth)
  omega

theorem room_inIfElse_lt (hroom : here.ifElseDepth < l.ifElseDepthLimit) :
    here.inIfElse.room l < here.room l := by
  change (l.loopDepthLimit - here.loopDepth) + (l.ifElseDepthLimit - (here.ifElseDepth + 1)) <
    (l.loopDepthLimit - here.loopDepth) + (l.ifElseDepthLimit - here.ifElseDepth)
  omega

end Place

namespace Policy

/-! ### The account of a walk -/

/-- The greatest number of scopes that one statement opens. -/
def scopesPerStmt (p : Policy) : Nat :=
  max 1 p.limits.loopSeqNumLim

/-- The greatest number of nodes of an expression with so many levels below the first. -/
def treeSize : Nat → Nat
  | 0 => 1
  | levels + 1 => 1 + 3 * treeSize levels

/-- The greatest number of nodes that one statement has in its expression. -/
def nodesPerStmt (p : Policy) : Nat :=
  treeSize p.limits.maxArithDepth

/-- From one point of a walk to a later one: everything stays within the limits, and beyond what the new
statements pay for there are at most so many new scopes and nodes. -/
structure Reaches (p : Policy) (scopes nodes : Nat) (w w' : Progress) : Prop where
  stmts_le : w.stmts ≤ p.limits.stmtNumLim → w'.stmts ≤ p.limits.stmtNumLim
  scopes_within : (∀ here ∈ w.scopes, here.Within p.limits) →
    ∀ here ∈ w'.scopes, here.Within p.limits
  nodes_le : (∀ d ∈ w.nodes, d ≤ p.limits.maxArithDepth) → ∀ d ∈ w'.nodes, d ≤ p.limits.maxArithDepth
  length_scopes : w'.scopes.length + w.stmts * p.scopesPerStmt ≤
    w.scopes.length + scopes + w'.stmts * p.scopesPerStmt
  length_nodes : w'.nodes.length + w.stmts * p.nodesPerStmt ≤
    w.nodes.length + nodes + w'.stmts * p.nodesPerStmt

namespace Reaches

variable {p : Policy} {scopes scopes' nodes nodes' : Nat} {w w' w'' : Progress}

theorem refl (p : Policy) (w : Progress) : p.Reaches 0 0 w w :=
  ⟨id, id, id, Nat.le_refl _, Nat.le_refl _⟩

theorem trans (h : p.Reaches scopes nodes w w') (h' : p.Reaches scopes' nodes' w' w'') :
    p.Reaches (scopes + scopes') (nodes + nodes') w w'' where
  stmts_le := h'.stmts_le ∘ h.stmts_le
  scopes_within := h'.scopes_within ∘ h.scopes_within
  nodes_le := h'.nodes_le ∘ h.nodes_le
  length_scopes := by
    have hscopes := h.length_scopes
    have hscopes' := h'.length_scopes
    omega
  length_nodes := by
    have hnodes := h.length_nodes
    have hnodes' := h'.length_nodes
    omega

theorem mono (h : p.Reaches scopes nodes w w') (hscopes : scopes ≤ scopes')
    (hnodes : nodes ≤ nodes') : p.Reaches scopes' nodes' w w' where
  stmts_le := h.stmts_le
  scopes_within := h.scopes_within
  nodes_le := h.nodes_le
  length_scopes := by
    have hlength := h.length_scopes
    omega
  length_nodes := by
    have hlength := h.length_nodes
    omega

/-- A statement that the program has room for pays for its scopes and its nodes. -/
theorem countStmt (hroom : w.stmts < p.limits.stmtNumLim)
    (h : p.Reaches p.scopesPerStmt p.nodesPerStmt { w with stmts := w.stmts + 1 } w') :
    p.Reaches 0 0 w w' where
  stmts_le _ := h.stmts_le hroom
  scopes_within := h.scopes_within
  nodes_le := h.nodes_le
  length_scopes := by
    have hlength := h.length_scopes
    change w'.scopes.length + (w.stmts + 1) * p.scopesPerStmt ≤ _ at hlength
    rw [Nat.add_mul, Nat.one_mul] at hlength
    change _ ≤ w.scopes.length + _ + _ at hlength
    omega
  length_nodes := by
    have hlength := h.length_nodes
    change w'.nodes.length + (w.stmts + 1) * p.nodesPerStmt ≤ _ at hlength
    rw [Nat.add_mul, Nat.one_mul] at hlength
    change _ ≤ w.nodes.length + _ + _ at hlength
    omega

end Reaches

/-- A part of the walk comes to an end, with at most so many scopes and nodes on account. -/
def EndsAt (p : Policy) (w : Progress) (part : Walk Unit) (scopes nodes : Nat) : Prop :=
  ∃ w', part w = some ((), w') ∧ p.Reaches scopes nodes w w'

/-- It does so wherever it is begun. -/
def Ends (p : Policy) (part : Walk Unit) (scopes nodes : Nat) : Prop :=
  ∀ w, p.EndsAt w part scopes nodes

variable {p : Policy} {scopes scopes' nodes nodes' : Nat} {w : Progress} {part next : Walk Unit}

theorem EndsAt.mono (h : p.EndsAt w part scopes nodes) (hscopes : scopes ≤ scopes')
    (hnodes : nodes ≤ nodes') : p.EndsAt w part scopes' nodes' := by
  obtain ⟨w', hw, hreach⟩ := h
  exact ⟨w', hw, hreach.mono hscopes hnodes⟩

theorem ends_pure : p.Ends (pure ()) 0 0 :=
  fun w => ⟨w, rfl, .refl p w⟩

theorem EndsAt.seq (h : p.EndsAt w part scopes nodes) (hnext : p.Ends next scopes' nodes') :
    p.EndsAt w (part >>= fun _ => next) (scopes + scopes') (nodes + nodes') := by
  obtain ⟨w', hw, hreach⟩ := h
  obtain ⟨w'', hw', hreach'⟩ := hnext w'
  refine ⟨w'', ?_, hreach.trans hreach'⟩
  change (part w >>= fun r => next r.2) = _
  rw [hw]
  exact hw'

/-- A draw costs nothing, and what goes on after it depends on it. -/
theorem endsAt_draw {α : Type} {d : Draw α} {P : α → Prop} {f : α → Walk Unit} (hd : d.Always P)
    (hf : ∀ v, P v → ∀ s, p.EndsAt { w with source := s } (f v) scopes nodes) :
    p.EndsAt w (Walk.draw d >>= f) scopes nodes := by
  obtain ⟨w', hw, hreach⟩ := hf (d w.source).1 (hd w.source) (d w.source).2
  exact ⟨w', hw, hreach.stmts_le, hreach.scopes_within, hreach.nodes_le, hreach.length_scopes,
    hreach.length_nodes⟩

theorem ends_openScope {here : Place} (h : here.Within p.limits) :
    p.Ends (Walk.openScope here) 1 0 := by
  intro w
  refine ⟨{ w with scopes := here :: w.scopes }, rfl, id, ?_, id, ?_, Nat.le_refl _⟩
  · intro hall
    exact List.forall_mem_cons.mpr ⟨h, hall⟩
  · exact Nat.le_refl _

theorem ends_visitNode {depth : Nat} (h : depth ≤ p.limits.maxArithDepth) :
    p.Ends (Walk.visitNode depth) 0 1 := by
  intro w
  refine ⟨{ w with nodes := depth :: w.nodes }, rfl, id, id, ?_, Nat.le_refl _, Nat.le_refl _⟩
  intro hall
  exact List.forall_mem_cons.mpr ⟨h, hall⟩

theorem endsAt_get {f : Progress → Walk Unit} (h : p.EndsAt w (f w) scopes nodes) :
    p.EndsAt w (get >>= f) scopes nodes :=
  h

/-! ### Expressions -/

variable {a : Arity}

theorem ends_walkOperands {depth size : Nat} (h : p.Ends (p.walkNode a depth) 0 size) (n : Nat) :
    p.Ends (p.walkOperands a depth n) 0 (n * size) := by
  induction n with
  | zero =>
      rw [walkOperands, if_pos rfl, Nat.zero_mul]
      exact ends_pure
  | succ n ih =>
      rw [walkOperands, if_neg n.succ_ne_zero, Nat.add_sub_cancel, Nat.add_mul, Nat.one_mul,
        Nat.add_comm]
      exact fun w => (h w).seq ih

/-- A node comes to an end if its operands do, which it has only where there is a level for them. -/
theorem ends_walkNode_of {depth size : Nat} (hdepth : depth ≤ p.limits.maxArithDepth)
    (hbelow : depth < p.limits.maxArithDepth →
      ∀ n ≤ 3, p.Ends (p.walkOperands a (depth + 1) n) 0 size) :
    p.Ends (p.walkNode a depth) 0 (1 + size) := by
  have hkind : (p.chooseArithNode depth).Always fun kind =>
      kind.isLeaf = true ∨ depth < p.limits.maxArithDepth := by
    rcases Nat.lt_or_ge depth p.limits.maxArithDepth with hlt | hge
    · exact fun _ => .inr hlt
    · exact (always_chooseArithNode_isLeaf hge).mono fun _ hleaf => .inl hleaf
  have hrest : p.Ends (do
      let kind ← Walk.draw (p.chooseArithNode depth)
      if kind.isLeaf then
        return ()
      else
        p.walkOperands a (depth + 1) (a.operands kind (← get))) 0 size := by
    intro w
    refine endsAt_draw hkind fun kind hkind s => ?_
    split
    · exact (ends_pure _).mono (Nat.le_refl _) (Nat.zero_le _)
    · rename_i hinner
      exact endsAt_get (hbelow (hkind.resolve_left hinner) _ (a.operands_le kind _) _)
  -- The equation of a partial function has to be rewritten by hand: it would unfold for ever.
  intro w
  rw [walkNode]
  exact (ends_visitNode hdepth w).seq hrest

/-- A node with so many levels below it comes to an end: it has at most three operands, and these have
one level less. -/
theorem ends_walkNode {depth levels : Nat} (h : depth + levels = p.limits.maxArithDepth) :
    p.Ends (p.walkNode a depth) 0 (treeSize levels) := by
  induction levels generalizing depth with
  | zero =>
      have hleaf : p.Ends (p.walkNode a depth) 0 (1 + 0) :=
        ends_walkNode_of (by omega) fun hlt => by omega
      exact hleaf
  | succ levels ih =>
      refine ends_walkNode_of (by omega) fun _ n hn w => ?_
      exact (ends_walkOperands (ih (by omega)) n w).mono (Nat.le_refl _)
        (Nat.mul_le_mul_right _ hn)

/-! ### Statements -/

/-- Scopes next to each other come to an end if each of them does. -/
theorem ends_walkScopes {here : Place} (h : p.Ends (p.walkScope a here) 1 0) (n : Nat) :
    p.Ends (p.walkScopes a here n) n 0 := by
  induction n with
  | zero =>
      rw [walkScopes, if_pos rfl]
      exact ends_pure
  | succ n ih =>
      rw [walkScopes, if_neg n.succ_ne_zero, Nat.add_sub_cancel, Nat.add_comm n 1]
      exact fun w => (h w).seq ih

/-- What a statement of some kind does once it is counted. -/
def stmtBody (p : Policy) (a : Arity) (here : Place) : NodeKind → Walk Unit
  | .loopNest => do
    let depth ← Walk.draw (p.chooseLoopNestDepth here.loopDepth)
    if 0 < depth then p.walkScope a (here.inLoops depth) else return ()
  | .loopSeq => do p.walkScopes a (here.inLoops 1) (← Walk.draw p.chooseLoopSeqNum)
  | .ifElse => p.walkScope a here.inIfElse
  | _ => p.walkNode a 0

/-- The scopes that may be opened in a place, all of which have less room. -/
def InnerEnd (p : Policy) (a : Arity) (here : Place) : Prop :=
  ∀ there : Place, there.Within p.limits → there.room p.limits < here.room p.limits →
    p.Ends (p.walkScope a there) 1 0

/-- A statement that may stand in a place opens scopes with less room, or has an expression. -/
theorem endsAt_stmtBody {here : Place} (hhere : here.Within p.limits) (hinner : p.InnerEnd a here)
    {stmts : Nat} {kind : NodeKind} (hkind : p.allowsKind (here.context stmts) kind = true) :
    p.EndsAt w (p.stmtBody a here kind) p.scopesPerStmt p.nodesPerStmt := by
  have hone : 1 ≤ p.scopesPerStmt := Nat.le_max_left _ _
  cases kind with
  | loopNest =>
      refine endsAt_draw (always_chooseLoopNestDepth_le here.loopDepth) fun depth hdepth s => ?_
      have hlt : here.loopDepth < p.limits.loopDepthLimit := loopDepth_lt_of_allowsKind hkind rfl
      split
      · rename_i hpos
        have hroom : here.loopDepth + depth ≤ p.limits.loopDepthLimit := by omega
        exact (hinner _ (hhere.inLoops hpos hroom) (Place.room_inLoops_lt hpos hroom) _).mono hone
          (Nat.zero_le _)
      · exact (ends_pure _).mono (Nat.zero_le _) (Nat.zero_le _)
  | loopSeq =>
      refine endsAt_draw always_chooseLoopSeqNum_le fun n hn s => ?_
      have hroom : here.loopDepth + 1 ≤ p.limits.loopDepthLimit := loopDepth_lt_of_allowsKind hkind rfl
      have hscope : p.Ends (p.walkScope a (here.inLoops 1)) 1 0 :=
        hinner _ (hhere.inLoops Nat.one_pos hroom) (Place.room_inLoops_lt Nat.one_pos hroom)
      exact (ends_walkScopes hscope n _).mono (Nat.le_trans hn (Nat.le_max_right _ _))
        (Nat.zero_le _)
  | ifElse =>
      have hroom : here.ifElseDepth < p.limits.ifElseDepthLimit := ifElseDepth_lt_of_allowsKind hkind
      exact (hinner _ (hhere.inIfElse hroom) (Place.room_inIfElse_lt hroom) w).mono hone
        (Nat.zero_le _)
  | _ => exact (ends_walkNode (Nat.zero_add _) w).mono (Nat.zero_le _) (Nat.le_refl _)

/-- A statement that the program has room for comes to an end, and pays for itself. -/
theorem endsAt_walkStmt {here : Place} (hhere : here.Within p.limits) (hinner : p.InnerEnd a here)
    (hroom : w.stmts < p.limits.stmtNumLim) : p.EndsAt w (p.walkStmt a here) 0 0 := by
  rw [walkStmt]
  refine endsAt_get (endsAt_draw always_chooseStmtKind_allowed fun kind hkind s => ?_)
  -- The statement is counted before its body, so the body can be charged to it.
  obtain ⟨w', hw, hreach⟩ := endsAt_stmtBody (w := { w with source := s, stmts := w.stmts + 1 }) hhere
    hinner hkind
  refine ⟨w', ?_, hreach.countStmt hroom⟩
  cases kind <;> exact hw

theorem ends_walkStmts {here : Place} (hhere : here.Within p.limits) (hinner : p.InnerEnd a here)
    (n : Nat) : p.Ends (p.walkStmts a here n) 0 0 := by
  induction n with
  | zero =>
      rw [walkStmts, if_pos rfl]
      exact ends_pure
  | succ n ih =>
      intro w
      rw [walkStmts, if_neg n.succ_ne_zero]
      refine endsAt_get ?_
      split
      · exact ends_pure w
      · rename_i hroom
        exact (endsAt_walkStmt hhere hinner (Nat.not_le.mp hroom)).seq ih

/-- **A scope comes to an end**, by induction on the room below it. -/
theorem ends_walkScope {here : Place} (hhere : here.Within p.limits) :
    p.Ends (p.walkScope a here) 1 0 := by
  induction hr : here.room p.limits using Nat.strongRecOn generalizing here with
  | ind r ih =>
      -- Scopes further in have less room, whether a loop or a conditional is around them.
      have hinner : p.InnerEnd a here := fun there hthere hlt => ih _ (hr ▸ hlt) hthere rfl
      have hrest : p.Ends (do
          let stmts := (← get).stmts
          p.walkStmts a here (← Walk.draw (p.chooseScopeStmtNum (here.context stmts)))) 0 0 := by
        intro w
        refine endsAt_get (endsAt_draw (always_true _) fun n _ s => ?_)
        exact ends_walkStmts hhere hinner n _
      intro w
      rw [walkScope]
      exact (ends_openScope hhere w).seq hrest

/-! ### Programs -/

/-- Twice the nodes of an expression and one more is a power of three. -/
theorem two_mul_treeSize (levels : Nat) : 2 * treeSize levels + 1 = 3 ^ (levels + 1) := by
  induction levels with
  | zero => rfl
  | succ levels ih =>
      rw [treeSize, Nat.pow_succ, ← ih]
      omega

/-- **The generator ends within its limits.** Whatever the tables, the words of the source and the
operands of the nodes are, the walk from an empty program comes to an end. The program then has no more
statements than allowed, no scope is nested in more loops or conditionals than allowed or in more scopes
than both together, and no expression is deeper than allowed. The scopes and the nodes are bounded by the
number of statements. -/
theorem walk_ends (p : Policy) (a : Arity) (s : Source) : ∃ w, p.walk a s = some w ∧
    w.stmts ≤ p.limits.stmtNumLim ∧
    (∀ here ∈ w.scopes, here.loopDepth ≤ p.limits.loopDepthLimit ∧
      here.ifElseDepth ≤ p.limits.ifElseDepthLimit ∧
      here.nesting ≤ p.limits.loopDepthLimit + p.limits.ifElseDepthLimit) ∧
    (∀ depth ∈ w.nodes, depth ≤ p.limits.maxArithDepth) ∧
    w.scopes.length ≤ 1 + w.stmts * max 1 p.limits.loopSeqNumLim ∧
    2 * w.nodes.length ≤ w.stmts * (3 ^ (p.limits.maxArithDepth + 1) - 1) := by
  have hstart : Place.outermost.Within p.limits :=
    ⟨Nat.zero_le _, Nat.zero_le _, Nat.le_refl _⟩
  obtain ⟨w, hw, hreach⟩ := ends_walkScope (a := a) hstart ⟨0, [], [], s⟩
  refine ⟨w, ?_, hreach.stmts_le (Nat.zero_le _), ?_, ?_, ?_, ?_⟩
  · unfold walk
    rw [hw]
    rfl
  · intro here hmem
    have hwithin := hreach.scopes_within (by simp) here hmem
    have hloop := hwithin.loopDepth
    have hif := hwithin.ifElseDepth
    have hnesting := hwithin.nesting
    exact ⟨hloop, hif, by omega⟩
  · exact hreach.nodes_le (by simp)
  · have hlength := hreach.length_scopes
    simpa [scopesPerStmt] using hlength
  · have hlength : w.nodes.length ≤ w.stmts * treeSize p.limits.maxArithDepth := by
      simpa [nodesPerStmt] using hreach.length_nodes
    have hsize := two_mul_treeSize p.limits.maxArithDepth
    rw [← hsize, Nat.add_sub_cancel, Nat.mul_left_comm]
    exact Nat.mul_le_mul_left 2 hlength

end Policy

end FuzzPolicy
