/-
The bounds of the grammar are never reached. Every rule takes a character when it
succeeds, and every rule that goes into itself has taken one before. So a rule that may
nest as deep as there are characters left reads as it would if it might nest deeper.
-/
import Lox.Proofs.Recovery.Ample
import Lox.Grammar.Program

namespace Lox.Parser.Agrees

variable {α : Type} {n : Nat} {expression expression' : Parser Expr}

-- ================================================================= primary

theorem word {spelling : String} (hword : spelling.toList ≠ []) :
    Agrees (n + 1) 1 (word spelling) (word spelling) :=
  (keyword hword).behind fun _ => pure

/-- A reserved word that commits to what comes behind it. -/
theorem word_committed {spelling : String} (hword : spelling.toList ≠ []) {p p' : Parser α}
    (hp : Agrees n 0 p p') :
    Agrees (n + 1) 1 (Parser.word spelling >>= fun _ => Parser.committed p)
      (Parser.word spelling >>= fun _ => Parser.committed p') :=
  (word hword).behind fun _ => hp.committed

theorem literal {constant : Parser (Constant × Token)} (hp : Agrees (n + 1) 1 constant constant) :
    Agrees (n + 1) 1 (literal constant) (literal constant) :=
  hp.behind fun _ => freshId.bind fun _ => pure

theorem wordConstant {spelling : String} {value : Constant} (hword : spelling.toList ≠ []) :
    Agrees (n + 1) 1 (wordConstant spelling value) (wordConstant spelling value) :=
  (keyword hword).behind fun _ => pure

theorem thisExpr : Agrees (n + 1) 1 thisExpr thisExpr :=
  (keyword (by decide)).behind fun _ => freshId.bind fun _ => pure

theorem superExpr : Agrees (n + 1) 1 superExpr superExpr :=
  (keyword (by decide)).behind fun _ => .committed <| symbol.weaken.bind fun _ =>
    identifier.weaken.bind fun _ => freshId.bind fun _ => pure

theorem variableExpr : Agrees (n + 1) 1 variableExpr variableExpr :=
  identifier.behind fun _ => freshId.bind fun _ => pure

theorem groupingExpr (he : Agrees n 1 expression expression') :
    Agrees (n + 1) 1 (groupingExpr expression) (groupingExpr expression') :=
  symbol.behind fun _ => .committed <| he.weaken.bind fun _ => symbol.weaken.bind fun _ =>
    freshId.bind fun _ => pure

theorem primary (he : Agrees n 1 expression expression') :
    Agrees (n + 1) 1 (primary expression) (primary expression') :=
  choice _ <|
    .cons (literal numberConstant) <|
    .cons (literal stringConstant) <|
    .cons (literal (wordConstant (by decide))) <|
    .cons (literal (wordConstant (by decide))) <|
    .cons (literal (wordConstant (by decide))) <|
    .cons thisExpr <|
    .cons superExpr <|
    .cons variableExpr <|
    .cons (groupingExpr he) .nil

-- =================================================================== calls

theorem commaSeparated {item item' : Parser α} (hitem : Agrees n 1 item item') :
    Agrees n 0 (commaSeparated item) (commaSeparated item') := by
  have hround : Agrees n 1 (do Parser.symbol ','; item) (do Parser.symbol ','; item') :=
    symbol.first fun _ => hitem.weaken
  have hlist : Agrees n 1 (do
      let first ← item
      let more ← Parser.many do Parser.symbol ','; item
      Pure.pure (first :: more)) (do
      let first ← item'
      let more ← Parser.many do Parser.symbol ','; item'
      Pure.pure (first :: more)) :=
    hitem.first fun _ => (many hround).bind fun _ => pure
  exact (optional hlist).bind fun _ => pure

theorem callSuffix (he : Agrees n 1 expression expression') :
    Agrees (n + 1) 1 (callSuffix expression) (callSuffix expression') := by
  refine skipTrivia.bind fun place => symbol.behind fun _ => (commaSeparated he).bind
    fun arguments => symbolToken.weaken.bind fun paren => ?_
  split
  · exact failAt
  · exact pure

theorem getSuffix : Agrees (n + 1) 1 getSuffix getSuffix :=
  symbol.behind fun _ => identifier.weaken.bind fun _ => pure

theorem applySuffixes (suffixes : List Suffix) : ∀ e : Expr,
    Agrees n 0 (applySuffixes e suffixes) (applySuffixes e suffixes) := by
  induction suffixes with
  | nil => exact fun e => pure
  | cons suffix rest ih =>
      intro e
      cases suffix with
      | call paren arguments => exact freshId.bind fun _ => ih _
      | get name => exact freshId.bind fun _ => ih _

theorem call (he : Agrees n 1 expression expression') :
    Agrees (n + 1) 1 (call expression) (call expression') := by
  have hsuffix : Agrees (n + 1) 1
      (Parser.firstOf none [Parser.callSuffix expression, Parser.getSuffix])
      (Parser.firstOf none [Parser.callSuffix expression', Parser.getSuffix]) :=
    firstOf (.cons (callSuffix he) (.cons getSuffix .nil)) none
  exact (primary he).behind fun head => (many hsuffix.shorter).bind fun suffixes =>
    applySuffixes suffixes head

-- =============================================================== operators

theorem unary (he : Agrees n 1 expression expression') {m depth depth' : Nat} (hm : m ≤ n + 1)
    (hdepth : m ≤ depth) (hdepth' : m ≤ depth') :
    Agrees m 1 (unary expression depth) (unary expression' depth') := by
  induction m generalizing depth depth' with
  | zero => exact zero
  | succ m ih =>
      obtain ⟨depth, rfl⟩ : ∃ d, depth = d + 1 := ⟨depth - 1, by omega⟩
      obtain ⟨depth', rfl⟩ : ∃ d, depth' = d + 1 := ⟨depth' - 1, by omega⟩
      have hoperand : Agrees m 1 (Parser.unary expression depth)
          (Parser.unary expression' depth') :=
        ih (by omega) (by omega) (by omega)
      refine choice _ (.cons ?_ (.cons (call (he.mono (by omega) (Nat.le_refl 1))) .nil))
      exact (operator (by decide)).behind fun _ => hoperand.weaken.bind fun _ =>
        freshId.bind fun _ => pure

theorem foldLeft {join : Joiner} (more : List (Token × Expr)) : ∀ left : Expr,
    Agrees n 0 (foldLeft join left more) (foldLeft join left more) := by
  induction more with
  | nil => exact fun left => pure
  | cons pair rest ih => exact fun left => freshId.bind fun _ => ih _

theorem leftAssociative {join : Joiner} {token : Parser Token} {operand operand' : Parser Expr}
    (ht : Agrees n 1 token token) (ho : Agrees n 1 operand operand') :
    Agrees n 1 (leftAssociative join token operand) (leftAssociative join token operand') := by
  have hround : Agrees n 1 (do
      let op ← token
      let right ← operand
      Pure.pure (op, right)) (do
      let op ← token
      let right ← operand'
      Pure.pure (op, right)) :=
    ht.first fun _ => ho.weaken.bind fun _ => pure
  exact ho.first fun first => (many hround).bind fun more => foldLeft more first

theorem logicalOr {operand operand' : Parser Expr} (ho : Agrees n 1 operand operand') :
    Agrees n 1 (logicalOr operand) (logicalOr operand') := by
  have hfactor : Agrees n 1 (factor operand) (factor operand') :=
    leftAssociative (operator (by decide)) ho
  have hterm : Agrees n 1 (term operand) (term operand') :=
    leftAssociative (operator (by decide)) hfactor
  have hcomparison : Agrees n 1 (comparison operand) (comparison operand') :=
    leftAssociative (operator (by decide)) hterm
  have hequality : Agrees n 1 (equality operand) (equality operand') :=
    leftAssociative (operator (by decide)) hcomparison
  have hand : Agrees n 1 (logicalAnd operand) (logicalAnd operand') :=
    leftAssociative (keyword (by decide)) hequality
  exact leftAssociative (keyword (by decide)) hand

-- ============================================================== assignment

theorem assignTo (target : Expr) (equals : Token) (value : Expr) :
    Agrees n 0 (assignTo target equals value) (assignTo target equals value) := by
  unfold Parser.assignTo
  split
  · exact freshId.bind fun _ => pure
  · exact freshId.bind fun _ => pure
  · exact failAt

/-- Expressions are read alike as long as they may nest as deep as characters are left. -/
theorem assignment {depth depth' : Nat} (hdepth : n ≤ depth) (hdepth' : n ≤ depth') :
    Agrees n 1 (assignment depth) (assignment depth') := by
  induction n generalizing depth depth' with
  | zero => exact zero
  | succ n ih =>
      obtain ⟨depth, rfl⟩ : ∃ d, depth = d + 1 := ⟨depth - 1, by omega⟩
      obtain ⟨depth', rfl⟩ : ∃ d, depth' = d + 1 := ⟨depth' - 1, by omega⟩
      have hinner : Agrees n 1 (Parser.assignment depth) (Parser.assignment depth') :=
        ih (by omega) (by omega)
      have hsource : Agrees n 1 (do
          let equals ← Parser.equalSign
          let value ← Parser.assignment depth
          Pure.pure (equals, value)) (do
          let equals ← Parser.equalSign
          let value ← Parser.assignment depth'
          Pure.pure (equals, value)) :=
        equalSign.first fun _ => hinner.weaken.bind fun _ => pure
      intro s
      refine (logicalOr (unary hinner (Nat.le_refl _) hdepth hdepth')).behind (fun target =>
        (optional hsource).bind fun source => ?_) s
      cases source with
      | none => exact pure
      | some pair => exact assignTo target pair.1 pair.2

-- ============================================================ declarations

variable {block block' : Parser (List Stmt)} {nested nested' : Parser Stmt}

theorem declarations (closer : Option Char) (hd : Agrees n 1 nested nested') :
    Agrees n 0 (declarations closer nested) (declarations closer nested') :=
  (many (recovering closer hd)).bind fun _ => pure

theorem braced (hd : Agrees n 1 nested nested') :
    Agrees (n + 1) 1 (braced nested) (braced nested') :=
  symbol.behind fun _ => .committed <| (declarations (some '}') hd).bind fun _ =>
    symbol.weaken.bind fun _ => pure

-- ======================================================= simple statements

theorem expressionStmt (he : Agrees n 1 expression expression') :
    Agrees n 1 (expressionStmt expression) (expressionStmt expression') :=
  he.first fun _ => .committed <| symbol.weaken.bind fun _ => freshId.bind fun _ => pure

theorem printStmt (he : Agrees n 1 expression expression') :
    Agrees (n + 1) 1 (printStmt expression) (printStmt expression') :=
  word_committed (by decide) <| he.weaken.bind fun _ => symbol.weaken.bind fun _ =>
    freshId.bind fun _ => pure

theorem returnStmt (he : Agrees n 1 expression expression') :
    Agrees (n + 1) 1 (returnStmt expression) (returnStmt expression') :=
  (keyword (by decide)).behind fun _ => .committed <| (optional he).bind fun _ =>
    symbol.weaken.bind fun _ => freshId.bind fun _ => pure

theorem varDecl (he : Agrees n 1 expression expression') :
    Agrees (n + 1) 1 (varDecl expression) (varDecl expression') := by
  have hinit : Agrees n 0 (do let _ ← Parser.equalSign; expression)
      (do let _ ← Parser.equalSign; expression') :=
    equalSign.weaken.bind fun _ => he.weaken
  exact word_committed (by decide) <| identifier.weaken.bind fun _ => (optional hinit).bind
    fun _ => symbol.weaken.bind fun _ => freshId.bind fun _ => pure

theorem blockStmt (hb : Agrees n 1 block block') :
    Agrees n 1 (blockStmt block) (blockStmt block') :=
  hb.first fun _ => freshId.bind fun _ => pure

-- ===================================================== compound statements

theorem ifStmt (he : Agrees n 1 expression expression') (hs : Agrees n 1 nested nested') :
    Agrees (n + 1) 1 (ifStmt expression nested) (ifStmt expression' nested') := by
  have hword : Agrees n 0 (Parser.word "else") (Parser.word "else") :=
    (keyword (by decide)).weaken.bind fun _ => pure
  have helse : Agrees n 0 (do Parser.word "else"; nested) (do Parser.word "else"; nested') :=
    hword.bind fun _ => hs.weaken
  refine word_committed (by decide) <| symbol.weaken.bind fun _ => he.weaken.bind fun _ =>
    symbol.weaken.bind fun _ => hs.weaken.bind fun _ => (optional helse).bind fun found => ?_
  cases found with
  | none => exact freshId.bind fun _ => pure
  | some _ => exact freshId.bind fun _ => pure

theorem whileStmt (he : Agrees n 1 expression expression') (hs : Agrees n 1 nested nested') :
    Agrees (n + 1) 1 (whileStmt expression nested) (whileStmt expression' nested') :=
  word_committed (by decide) <| symbol.weaken.bind fun _ => he.weaken.bind fun _ =>
    symbol.weaken.bind fun _ => hs.weaken.bind fun _ => freshId.bind fun _ => pure

theorem forInitializer (he : Agrees n 1 expression expression') :
    Agrees n 0 (forInitializer expression) (forInitializer expression') :=
  firstOf (.cons (symbol.weaken.bind fun _ => pure) <|
    .cons ((varDecl he).shorter.weaken.bind fun _ => pure) <|
    .cons ((expressionStmt he).weaken.bind fun _ => pure) .nil) none

theorem forLoop (initializer : Option Stmt) (condition increment : Option Expr) (body : Stmt) :
    Agrees n 0 (forLoop initializer condition increment body)
      (forLoop initializer condition increment body) := by
  have hcondition : Agrees n 0 (Parser.loopCondition condition)
      (Parser.loopCondition condition) := by
    cases condition with
    | none => exact freshId.bind fun _ => pure
    | some e => exact pure
  have hbody : Agrees n 0 (Parser.loopBody body increment) (Parser.loopBody body increment) := by
    cases increment with
    | none => exact pure
    | some e => exact freshId.bind fun _ => freshId.bind fun _ => pure
  refine hcondition.bind fun condition => hbody.bind fun body => freshId.bind fun id => ?_
  cases initializer with
  | none => exact pure
  | some first => exact freshId.bind fun _ => pure

theorem forStmt (he : Agrees n 1 expression expression') (hs : Agrees n 1 nested nested') :
    Agrees (n + 1) 1 (forStmt expression nested) (forStmt expression' nested') :=
  word_committed (by decide) <| symbol.weaken.bind fun _ => (forInitializer he).bind fun _ =>
    (optional he).bind fun _ => symbol.weaken.bind fun _ => (optional he).bind fun _ =>
      symbol.weaken.bind fun _ => hs.weaken.bind fun _ => forLoop _ _ _ _

/-- Statements are read alike as long as they may nest as deep as characters are left. -/
theorem statement (he : Agrees n 1 expression expression') (hb : Agrees n 1 block block')
    {m depth depth' : Nat} (hm : m ≤ n) (hdepth : m ≤ depth) (hdepth' : m ≤ depth') :
    Agrees m 1 (statement expression block depth) (statement expression' block' depth') := by
  induction m generalizing depth depth' with
  | zero => exact zero
  | succ m ih =>
      obtain ⟨depth, rfl⟩ : ∃ d, depth = d + 1 := ⟨depth - 1, by omega⟩
      obtain ⟨depth', rfl⟩ : ∃ d, depth' = d + 1 := ⟨depth' - 1, by omega⟩
      have hs : Agrees m 1 (Parser.statement expression block depth)
          (Parser.statement expression' block' depth') :=
        ih (by omega) (by omega) (by omega)
      have he' : Agrees (m + 1) 1 expression expression' := he.mono hm (Nat.le_refl 1)
      exact choice _ <|
        .cons (forStmt he'.shorter hs) <|
        .cons (ifStmt he'.shorter hs) <|
        .cons (printStmt he'.shorter) <|
        .cons (returnStmt he'.shorter) <|
        .cons (whileStmt he'.shorter hs) <|
        .cons (blockStmt (hb.mono hm (Nat.le_refl 1))) <|
        .cons (expressionStmt he') .nil

-- ============================================================ declarations

theorem function (hb : Agrees n 1 block block') :
    Agrees n 1 (function block) (function block') := by
  refine skipTrivia.bind fun place => identifier.first fun name => symbol.weaken.bind fun _ =>
    (commaSeparated identifier).bind fun params => symbol.weaken.bind fun _ =>
      hb.weaken.bind fun body => ?_
  split
  · exact failAt
  · exact freshId.bind fun _ => pure

theorem funDecl (hb : Agrees n 1 block block') :
    Agrees (n + 1) 1 (funDecl block) (funDecl block') :=
  word_committed (by decide) <| (function hb).weaken.bind fun _ => pure

theorem superclass : Agrees n 0 superclass superclass :=
  symbol.weaken.bind fun _ => identifier.weaken.bind fun _ => freshId.bind fun _ => pure

theorem classDecl (hb : Agrees n 1 block block') :
    Agrees (n + 1) 1 (classDecl block) (classDecl block') :=
  word_committed (by decide) <| identifier.weaken.bind fun _ => (optional superclass).bind
    fun _ => symbol.weaken.bind fun _ => (many (function hb)).bind fun _ =>
      symbol.weaken.bind fun _ => freshId.bind fun _ => pure

/-- Declarations are read alike as long as they may nest as deep as characters are left. -/
theorem declaration (he : Agrees n 1 expression expression') {m depth depth' : Nat} (hm : m ≤ n)
    (hdepth : m ≤ depth) (hdepth' : m ≤ depth') :
    Agrees m 1 (declaration expression depth) (declaration expression' depth') := by
  induction m generalizing depth depth' with
  | zero => exact zero
  | succ m ih =>
      obtain ⟨depth, rfl⟩ : ∃ d, depth = d + 1 := ⟨depth - 1, by omega⟩
      obtain ⟨depth', rfl⟩ : ∃ d, depth' = d + 1 := ⟨depth' - 1, by omega⟩
      have he' : Agrees (m + 1) 1 expression expression' := he.mono hm (Nat.le_refl 1)
      have hb : Agrees (m + 1) 1 (Parser.braced (Parser.declaration expression depth))
          (Parser.braced (Parser.declaration expression' depth')) :=
        braced (ih (by omega) (by omega) (by omega))
      exact choice _ <|
        .cons (classDecl hb.shorter) <|
        .cons (funDecl hb.shorter) <|
        .cons (varDecl he'.shorter) <|
        .cons (statement he' hb (Nat.le_refl _) hdepth hdepth') .nil

-- ============================================================= whole texts

theorem endOfText : Agrees n 0 endOfText endOfText := by
  refine look fun c => ?_
  split
  · exact fun _ _ _ => .ok rfl (Nat.le_refl _)
  · exact .reject

theorem program {depth depth' : Nat} (hdepth : n ≤ depth) (hdepth' : n ≤ depth') :
    Agrees n 0 (program depth) (program depth') :=
  (declarations none (declaration (assignment hdepth hdepth') (Nat.le_refl _) hdepth hdepth')).bind
    fun _ => endOfText.bind fun _ => pure

end Lox.Parser.Agrees
