/-!
Blocks of code: an optional header, the statements that belong to the block itself, and the
blocks nested inside it. A block owns all that is below it, so no block has two parents and none
lies below itself.
-/

namespace BlockOutline

/-- A block of code with statements of type `α`; `none` is the prototype of a bare scope. -/
structure Block (α : Type) where
  prototype : Option String
  statements : List α
  children : List (Block α)
deriving Inhabited, Repr

namespace Block

variable {α : Type}

/-- How a block without prototype is called in every listing. -/
def anonymousName : String := "<anonymous>"

def displayName (prototype : Option String) : String :=
  prototype.getD anonymousName

/-- A block without statements and children. -/
def leaf (prototype : Option String) : Block α :=
  ⟨prototype, [], []⟩

def isLeaf (b : Block α) : Bool :=
  b.children.isEmpty

def statementCount (b : Block α) : Nat :=
  b.statements.length

def setPrototype (b : Block α) (prototype : String) : Block α :=
  { b with prototype := some prototype }

def clearPrototype (b : Block α) : Block α :=
  { b with prototype := none }

def addStatement (b : Block α) (statement : α) : Block α :=
  { b with statements := b.statements ++ [statement] }

def addStatements (b : Block α) (statements : List α) : Block α :=
  { b with statements := b.statements ++ statements }

def addChild (b : Block α) (child : Block α) : Block α :=
  { b with children := b.children ++ [child] }

/-- A count with its noun, which is singular for exactly one. -/
def counted (count : Nat) (one many : String) : String :=
  toString count ++ " " ++ if count = 1 then one else many

/-- One line about a block: its shown prototype, and how many statements and children it has. -/
def describe (b : Block α) : String :=
  displayName b.prototype ++ " (" ++ counted b.statements.length "statement" "statements" ++ ", "
    ++ counted b.children.length "child" "children" ++ ")"

mutual

def beq [BEq α] : Block α → Block α → Bool
  | ⟨p, ss, cs⟩, ⟨q, ts, ds⟩ => p == q && ss == ts && beqAll cs ds

def beqAll [BEq α] : List (Block α) → List (Block α) → Bool
  | [], [] => true
  | b :: bs, c :: cs => beq b c && beqAll bs cs
  | _, _ => false

end

instance [BEq α] : BEq (Block α) :=
  ⟨beq⟩

/-- What holds of a block as soon as it holds of its children holds of every block. -/
@[elab_as_elim, induction_eliminator]
theorem induction {motive : Block α → Prop}
    (mk : ∀ prototype statements children, (∀ c ∈ children, motive c) →
      motive ⟨prototype, statements, children⟩) (b : Block α) : motive b :=
  match b with
  | ⟨prototype, statements, children⟩ =>
    mk prototype statements children fun c _ => induction mk c

theorem beqAll_eq [BEq α] (as bs : List (Block α)) : beqAll as bs = (as == bs) := by
  induction as generalizing bs with
  | nil => cases bs <;> rfl
  | cons a as ih =>
    cases bs with
    | nil => rfl
    | cons b bs => simp only [beqAll, ih]; rfl

@[simp] theorem mk_beq_mk [BEq α] (p q : Option String) (ss ts : List α)
    (cs ds : List (Block α)) :
    ((⟨p, ss, cs⟩ : Block α) == ⟨q, ts, ds⟩) = (p == q && ss == ts && cs == ds) := by
  rw [← beqAll_eq]; rfl

theorem beq_iff_eq [BEq α] [LawfulBEq α] (a b : Block α) : (a == b) = true ↔ a = b := by
  induction a generalizing b with
  | mk p ss cs ih =>
    obtain ⟨q, ts, ds⟩ := b
    have children : (cs == ds) = true ↔ cs = ds := by
      clear p ss q ts
      induction cs generalizing ds with
      | nil => cases ds <;> simp
      | cons c cs ihs =>
        cases ds with
        | nil => simp
        | cons d ds =>
          rw [List.cons_beq_cons, Bool.and_eq_true, ih c (by simp) d,
            ihs (fun c hc => ih c (by simp [hc])) ds, List.cons.injEq]
    simp [children, and_assoc]

instance [BEq α] [LawfulBEq α] : LawfulBEq (Block α) where
  eq_of_beq h := (beq_iff_eq _ _).mp h
  rfl := (beq_iff_eq _ _).mpr rfl

instance [DecidableEq α] : DecidableEq (Block α) :=
  instDecidableEqOfLawfulBEq

end Block

end BlockOutline
