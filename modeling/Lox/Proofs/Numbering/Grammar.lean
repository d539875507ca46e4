/-
Every rule of the grammar makes the node that it reads, and all parts of it before: one
lemma for each rule. Two rules do more than put parts together. An assignment takes its
target apart, whose own node is dropped. A loop of the longer kind is read in the order
of its text and built in another one; the words of its clauses stand in front of its
body, and the nodes that step and loop become around it.
-/
import Lox.Proofs.Numbering.Makes

namespace Lox.Parser

/-- A reader of expressions makes the expression that it reads. -/
def MakesExpr (p : Parser Expr) : Prop := Makes [] p fun e => [e.lineage]

/-- A reader of statements makes the statement that it reads. -/
def MakesStmt (p : Parser Stmt) : Prop := Makes [] p fun s => [s.lineage]

/-- A reader of braces makes the statements in them. -/
def MakesBody (p : Parser (List Stmt)) : Prop := Makes [] p Stmt.lineages

/-- What a call is made of besides the callee. -/
def Suffix.lineages : Suffix → List Lineage
  | .call _ arguments => Expr.lineages arguments
  | .get _ => []

namespace Makes

variable {α : Type} {given : List Lineage} {expression : Parser Expr} {block : Parser (List Stmt)}

-- ================================================================= primary

theorem literal {constant : Parser (Constant × Token)} (hp : Makes [] constant fun _ => []) :
    MakesExpr (literal constant) :=
  bind hp fun _ => number fun _ => pure fun _ _ h => h

theorem thisExpr : MakesExpr thisExpr :=
  keyword.bind fun _ => number fun _ => pure fun _ _ h => h

theorem superExpr : MakesExpr superExpr :=
  keyword.bind fun _ => committed <| symbol.bind fun _ => identifier.bind fun _ =>
    number fun _ => pure fun _ _ h => h

theorem variableExpr : MakesExpr variableExpr :=
  identifier.bind fun _ => number fun _ => pure fun _ _ h => h

theorem groupingExpr (he : MakesExpr expression) : MakesExpr (groupingExpr expression) :=
  symbol.bind fun _ => committed <| bind he fun _ => symbol.bind fun _ =>
    number fun _ => pure fun _ _ h => h

theorem wordConstant {spelling : String} {value : Constant} :
    Makes given (wordConstant spelling value) fun _ => given :=
  keyword.bind fun _ => pure fun _ _ h => h

theorem primary (he : MakesExpr expression) : MakesExpr (primary expression) := by
  refine choice fun p hp => ?_
  simp only [List.mem_cons, List.not_mem_nil, or_false] at hp
  rcases hp with rfl | rfl | rfl | rfl | rfl | rfl | rfl | rfl | rfl
  · exact literal (words does_numberConstant)
  · exact literal (words does_stringConstant)
  · exact literal wordConstant
  · exact literal wordConstant
  · exact literal wordConstant
  · exact thisExpr
  · exact superExpr
  · exact variableExpr
  · exact groupingExpr he

-- =================================================================== calls

theorem commaSeparated {item : Parser α} {view : α → List Lineage} (hitem : Makes [] item view) :
    Makes [] (commaSeparated item) fun found => found.flatMap view := by
  have hmore : Makes [] (Parser.many do Parser.symbol ','; item) fun found => found.flatMap view :=
    many (symbol.bind fun _ => hitem)
  have hlist : Makes [] (do
      let first ← item
      let more ← Parser.many do Parser.symbol ','; item
      Pure.pure (first :: more)) fun found => found.flatMap view :=
    hitem.bind fun first => (hmore.behind (view first)).bind fun more =>
      pure_perm (by rw [List.flatMap_cons])
  refine (optional hlist).bind fun found => pure_perm ?_
  cases found <;> simp

theorem callSuffix (he : MakesExpr expression) :
    Makes [] (callSuffix expression) Suffix.lineages := by
  refine (words Does.skipTrivia).bind fun _ => symbol.bind fun _ =>
    (commaSeparated he).bind fun arguments => symbolToken.bind fun _ => ?_
  split
  · exact fails
  · refine pure_perm ?_
    rw [Suffix.lineages, Expr.lineages_eq_map, List.map_eq_flatMap]

theorem getSuffix : Makes [] getSuffix Suffix.lineages :=
  symbol.bind fun _ => identifier.bind fun _ => pure fun _ _ h => h

theorem applySuffixes (suffixes : List Suffix) : ∀ e : Expr,
    Makes (e.lineage :: suffixes.flatMap Suffix.lineages) (applySuffixes e suffixes)
      fun whole => [whole.lineage] := by
  induction suffixes with
  | nil => exact fun e => pure fun _ _ h => h
  | cons suffix rest ih =>
      intro e
      cases suffix with
      | call paren arguments =>
          exact numberFirst (e.lineage :: Expr.lineages arguments) (rest.flatMap Suffix.lineages)
            fun _ => ih _
      | get name => exact numberFirst [e.lineage] (rest.flatMap Suffix.lineages) fun _ => ih _

theorem call (he : MakesExpr expression) : MakesExpr (call expression) := by
  have hsuffix : Makes [] (Parser.firstOf none [Parser.callSuffix expression, Parser.getSuffix])
      Suffix.lineages := by
    refine firstOf fun p hp => ?_
    simp only [List.mem_cons, List.not_mem_nil, or_false] at hp
    rcases hp with rfl | rfl
    · exact callSuffix he
    · exact getSuffix
  exact bind (primary he) fun head => ((many hsuffix).behind [head.lineage]).bind fun suffixes =>
    applySuffixes suffixes head

-- =============================================================== operators

theorem unary (he : MakesExpr expression) (depth : Nat) : MakesExpr (unary expression depth) := by
  induction depth with
  | zero => exact reject
  | succ depth ih =>
      intro s
      refine choice (fun p hp => ?_) s
      simp only [List.mem_cons, List.not_mem_nil, or_false] at hp
      rcases hp with rfl | rfl
      · exact operator.bind fun _ => bind ih fun _ => number fun _ => pure fun _ _ h => h
      · exact call he

/-- A node that is made of two operands. -/
def OfTwo (join : Joiner) : Prop :=
  ∀ id left token right, (join id left token right).lineage = .node id [left.lineage, right.lineage]

theorem foldLeft {join : Joiner} (hjoin : OfTwo join) (more : List (Token × Expr)) : ∀ left : Expr,
    Makes (left.lineage :: more.flatMap fun pair => [pair.2.lineage]) (foldLeft join left more)
      fun whole => [whole.lineage] := by
  induction more with
  | nil => exact fun left => pure fun _ _ h => h
  | cons pair rest ih =>
      exact fun left => numberFirst [left.lineage, pair.2.lineage] _ fun id =>
        hjoin id left pair.1 pair.2 ▸ ih _

theorem leftAssociative {join : Joiner} (hjoin : OfTwo join) {token : Parser Token}
    {operand : Parser Expr} (ht : Makes [] token fun _ => []) (ho : MakesExpr operand) :
    MakesExpr (leftAssociative join token operand) := by
  have hround : Makes [] (do
      let op ← token
      let right ← operand
      Pure.pure (op, right)) fun pair => [pair.2.lineage] :=
    ht.bind fun _ => bind ho fun _ => pure fun _ _ h => h
  exact bind ho fun first => ((many hround).behind [first.lineage]).bind fun more =>
    foldLeft hjoin more first

theorem logicalOr {operand : Parser Expr} (ho : MakesExpr operand) :
    MakesExpr (logicalOr operand) := by
  have hbinary : OfTwo .binary := fun _ _ _ _ => rfl
  have hlogical : OfTwo .logical := fun _ _ _ _ => rfl
  have hfactor : MakesExpr (factor operand) := leftAssociative hbinary operator ho
  have hterm : MakesExpr (term operand) := leftAssociative hbinary operator hfactor
  have hcomparison : MakesExpr (comparison operand) := leftAssociative hbinary operator hterm
  have hequality : MakesExpr (equality operand) := leftAssociative hbinary operator hcomparison
  have hand : MakesExpr (logicalAnd operand) := leftAssociative hlogical keyword hequality
  exact leftAssociative hlogical keyword hand

-- ============================================================== assignment

/-- The node of the target goes, and its parts stay. -/
theorem assignTo (target : Expr) (equals : Token) (value : Expr) :
    Makes [target.lineage, value.lineage] (assignTo target equals value) fun e => [e.lineage] := by
  unfold Parser.assignTo
  split
  · exact mono (numberFirst [value.lineage] [] fun _ => pure fun _ _ h => h) fun _ _ h => h.unwrap
  · rename_i object name
    exact mono (numberFirst [object.lineage, value.lineage] [] fun _ => pure fun _ _ h => h)
      fun _ _ h => h.unwrap
  · exact fails

theorem assignment (depth : Nat) : MakesExpr (assignment depth) := by
  induction depth with
  | zero => exact reject
  | succ depth ih =>
      have hsource : Makes [] (do
          let equals ← Parser.equalSign
          let value ← Parser.assignment depth
          Pure.pure (equals, value)) fun pair => [pair.2.lineage] :=
        equalSign.bind fun _ => bind ih fun _ => pure fun _ _ h => h
      intro s
      refine bind (logicalOr (unary ih (depth + 1))) (fun target =>
        ((optional hsource).behind [target.lineage]).bind fun source => ?_) s
      cases source with
      | none => exact pure fun _ _ h => h
      | some pair => exact assignTo target pair.1 pair.2

-- ============================================================ declarations

theorem declarations {declaration : Parser Stmt} (closer : Option Char)
    (hd : MakesStmt declaration) : Makes [] (declarations closer declaration) Stmt.lineages := by
  refine (many (recovering closer hd)).bind fun found => pure_perm ?_
  rw [Stmt.lineages_eq_map, List.map_eq_flatMap]
  induction found with
  | nil => rfl
  | cons stmt rest ih => cases stmt <;> simpa using ih

theorem braced {declaration : Parser Stmt} (hd : MakesStmt declaration) :
    MakesBody (braced declaration) :=
  symbol.bind fun _ => committed <| (declarations (some '}') hd).bind fun _ =>
    symbol.bind fun _ => pure fun _ _ h => h

-- ======================================================= simple statements

theorem expressionStmt (he : MakesExpr expression) : MakesStmt (expressionStmt expression) :=
  bind he fun _ => committed <| symbol.bind fun _ => number fun _ => pure fun _ _ h => h

theorem printStmt (he : MakesExpr expression) : MakesStmt (printStmt expression) :=
  word_committed <| bind he fun _ => symbol.bind fun _ => number fun _ => pure fun _ _ h => h

theorem lineages_toList (value : Option Expr) :
    (value.toList.flatMap fun e => [e.lineage]) = Expr.lineages value.toList := by
  rw [Expr.lineages_eq_map, List.map_eq_flatMap]

theorem optionalExpr (he : MakesExpr expression) :
    Makes [] (Parser.optional expression) fun value => Expr.lineages value.toList :=
  (optional he).congr fun value => (lineages_toList value).symm

theorem returnStmt (he : MakesExpr expression) : MakesStmt (returnStmt expression) :=
  keyword.bind fun _ => committed <| (optionalExpr he).bind fun _ => symbol.bind fun _ =>
    number fun _ => pure fun _ _ h => h

theorem varDecl (he : MakesExpr expression) : MakesStmt (varDecl expression) := by
  have hinit : MakesExpr (do let _ ← Parser.equalSign; expression) := equalSign.bind fun _ => he
  exact word_committed <| identifier.bind fun _ => (optionalExpr hinit).bind fun _ =>
    symbol.bind fun _ => number fun _ => pure fun _ _ h => h

theorem blockStmt (hb : MakesBody block) : MakesStmt (blockStmt block) :=
  bind hb fun _ => number fun _ => pure fun _ _ h => h

-- ===================================================== compound statements

variable {nested : Parser Stmt}

theorem ifStmt (he : MakesExpr expression) (hs : MakesStmt nested) :
    MakesStmt (ifStmt expression nested) := by
  have helse : MakesStmt (do Parser.word "else"; nested) := word.bind fun _ => hs
  refine word_committed <| symbol.bind fun _ => bind he fun condition => symbol.bind fun _ =>
    (behind hs [condition.lineage]).bind fun thenBranch =>
      ((optional helse).behind [condition.lineage, thenBranch.lineage]).bind fun elseBranch => ?_
  cases elseBranch with
  | none => exact number fun _ => pure fun _ _ h => h
  | some _ => exact number fun _ => pure fun _ _ h => h

theorem whileStmt (he : MakesExpr expression) (hs : MakesStmt nested) :
    MakesStmt (whileStmt expression nested) :=
  word_committed <| symbol.bind fun _ => bind he fun condition => symbol.bind fun _ =>
    (behind hs [condition.lineage]).bind fun _ => number fun _ => pure fun _ _ h => h

theorem forInitializer (he : MakesExpr expression) :
    Makes [] (forInitializer expression) fun first => Stmt.lineages first.toList := by
  refine firstOf fun p hp => ?_
  simp only [List.mem_cons, List.not_mem_nil, or_false] at hp
  rcases hp with rfl | rfl | rfl
  · exact symbol.bind fun _ => pure fun _ _ h => h
  · exact bind (varDecl he) fun _ => pure fun _ _ h => h
  · exact bind (expressionStmt he) fun _ => pure fun _ _ h => h

/-- The condition of a loop, in front of what else was built. -/
theorem loopCondition (condition : Option Expr) (rest : List Lineage) :
    Makes (Expr.lineages condition.toList ++ rest) (loopCondition condition)
      fun e => e.lineage :: rest := by
  cases condition with
  | none => exact numberFirst [] rest fun _ => pure fun _ _ h => h
  | some e => exact pure fun _ _ h => h

/-- The step goes behind the body, and a block around both. -/
theorem loopBody (body : Stmt) (increment : Option Expr) (rest : List Lineage) :
    Makes (Expr.lineages increment.toList ++ body.lineage :: rest) (loopBody body increment)
      fun s => s.lineage :: rest := by
  cases increment with
  | none => exact pure fun _ _ h => h
  | some e =>
      refine numberFirst [e.lineage] (body.lineage :: rest) fun step => ?_
      exact perm (numberFirst [body.lineage, .node step [e.lineage]] rest
        fun _ => pure fun _ _ h => h) (.swap ..)

/-- The initializer goes in front of the loop, and a block around both. -/
theorem loopBlock (loop : Stmt) (first : Option Stmt) :
    Makes (loop.lineage :: Stmt.lineages first.toList) (loopBlock loop first)
      fun s => [s.lineage] := by
  cases first with
  | none => exact pure fun _ _ h => h
  | some first =>
      exact perm (numberFirst [first.lineage, loop.lineage] [] fun _ => pure fun _ _ h => h)
        (.swap ..)

/-- What the clauses and the body are goes into one statement, whatever their order in it. -/
theorem forLoop (first : Option Stmt) (condition increment : Option Expr) (body : Stmt) :
    Makes (Stmt.lineages first.toList ++ Expr.lineages condition.toList
        ++ Expr.lineages increment.toList ++ [body.lineage])
      (forLoop first condition increment body) fun s => [s.lineage] := by
  let I := Stmt.lineages first.toList
  let R := Expr.lineages increment.toList
  refine perm ((loopCondition condition (R ++ body.lineage :: I)).bind fun condition => ?_) ?_
  · refine perm ((loopBody body increment (condition.lineage :: I)).bind fun body => ?_) ?_
    · exact perm (numberFirst [condition.lineage, body.lineage] I fun id =>
        loopBlock (.whileLoop id condition body) first) (.swap ..)
    · have hmiddle : ((R ++ [body.lineage]) ++ condition.lineage :: I).Perm _ := List.perm_middle
      simpa using hmiddle
  · have hfront : (I ++ (Expr.lineages condition.toList ++ R ++ [body.lineage])).Perm _ :=
      List.perm_append_comm
    simpa using hfront.symm

theorem forStmt (he : MakesExpr expression) (hs : MakesStmt nested) :
    MakesStmt (forStmt expression nested) :=
  word_committed <| symbol.bind fun _ => (forInitializer he).bind fun _ =>
    ((optionalExpr he).behind _).bind fun _ => symbol.bind fun _ =>
      ((optionalExpr he).behind _).bind fun _ => symbol.bind fun _ =>
        (behind hs _).bind fun body => forLoop _ _ _ body

theorem statement (he : MakesExpr expression) (hb : MakesBody block) (depth : Nat) :
    MakesStmt (Parser.statement expression block depth) := by
  induction depth with
  | zero => exact reject
  | succ depth ih =>
      intro s
      refine choice (fun p hp => ?_) s
      simp only [List.mem_cons, List.not_mem_nil, or_false] at hp
      rcases hp with rfl | rfl | rfl | rfl | rfl | rfl | rfl
      · exact forStmt he ih
      · exact ifStmt he ih
      · exact printStmt he
      · exact returnStmt he
      · exact whileStmt he ih
      · exact blockStmt hb
      · exact expressionStmt he

-- ============================================================ declarations

theorem parameters : Makes [] (Parser.commaSeparated Parser.identifier) fun _ => [] :=
  (commaSeparated identifier).congr fun _ => by simp

theorem function (hb : MakesBody block) : Makes [] (function block) fun f => [f.lineage] := by
  refine (words Does.skipTrivia).bind fun place => identifier.bind fun name => symbol.bind fun _ =>
    parameters.bind fun params => symbol.bind fun _ => bind hb fun body => ?_
  split
  · exact fails
  · exact number fun _ => pure fun _ _ h => h

theorem funDecl (hb : MakesBody block) : MakesStmt (funDecl block) :=
  word_committed <| (function hb).bind fun _ => pure fun _ _ h => h

theorem superclass : Makes [] superclass fun parent => [parent.lineage] :=
  symbol.bind fun _ => identifier.bind fun _ => number fun _ => pure fun _ _ h => h

theorem classDecl (hb : MakesBody block) : MakesStmt (classDecl block) := by
  have hmethods : Makes [] (Parser.many (Parser.function block)) FunDecl.lineages :=
    (many (function hb)).congr fun methods => by
      rw [FunDecl.lineages_eq_map, List.map_eq_flatMap]
  have hparent : Makes [] (Parser.optional Parser.superclass)
      fun parent => parent.toList.map NameRef.lineage :=
    (optional superclass).congr fun parent => by rw [List.map_eq_flatMap]
  exact word_committed <| identifier.bind fun _ => hparent.bind fun _ => symbol.bind fun _ =>
    (hmethods.behind _).bind fun _ => symbol.bind fun _ => number fun _ => pure fun _ _ h => h

theorem declaration (he : MakesExpr expression) (depth : Nat) :
    MakesStmt (Parser.declaration expression depth) := by
  induction depth with
  | zero => exact reject
  | succ depth ih =>
      have hblock : MakesBody (Parser.braced (Parser.declaration expression depth)) := braced ih
      intro s
      refine choice (fun p hp => ?_) s
      simp only [List.mem_cons, List.not_mem_nil, or_false] at hp
      rcases hp with rfl | rfl | rfl | rfl
      · exact classDecl hblock
      · exact funDecl hblock
      · exact varDecl he
      · exact statement he hblock (depth + 1)

-- ============================================================= whole texts

theorem endOfText : Makes given endOfText fun _ => given := words does_endOfText

theorem program (depth : Nat) : Makes [] (program depth) Stmt.lineages :=
  (declarations none (declaration (assignment depth) depth)).bind fun _ =>
    endOfText.bind fun _ => pure fun _ _ h => h

theorem singleExpression (depth : Nat) : MakesExpr (singleExpression depth) :=
  bind (assignment depth) fun _ => endOfText.bind fun _ => pure fun _ _ h => h

end Makes

end Lox.Parser
