import Multisample.Script.Scope

/-!
# Reading scripts

Statements and expressions are read by descent with one token of look-ahead;
binary operators are read by their precedence.  Names are resolved on the way.
-/

namespace Multisample.Script

structure ParserState where
  lexemes : List Lexeme
  /-- The line of the last token that was consumed. -/
  line : Nat := 1
  scopes : List FunctionScope := []
  /-- How many expressions and statements are open. -/
  depth : Nat := 0
deriving Inhabited

abbrev Parser := StateT ParserState (Except SyntaxFault)

namespace Parser

/-- Expressions and statements may not be nested deeper. -/
def maxDepth : Nat := 195

/-! ## Tokens -/

def current : Parser Token := do
  return ((← get).lexemes.head?.map (·.token)).getD .stop

def currentLine : Parser Nat := do
  let s ← get
  return (s.lexemes.head?.map (·.line)).getD s.line

def lastLine : Parser Nat := do
  return (← get).line

def failPlainly {α : Type} (message : String) : Parser α := do
  throw ⟨← currentLine, message⟩

def fail {α : Type} (message : String) : Parser α := do
  failPlainly s!"{message} near {(← current).display}"

/-- Stops at a place where no token can be read. -/
def checkToken : Parser Unit := do
  match ← current with
  | .bad message => failPlainly message
  | _ => return

def advance : Parser Unit := do
  let line ← currentLine
  modify fun s => { s with lexemes := s.lexemes.drop 1, line }
  checkToken

def isWord (w : String) : Parser Bool := do
  match ← current with
  | .word s => return s == w
  | _ => return false

/-- Consumes a word if it is next. -/
def accept (w : String) : Parser Bool := do
  if ← isWord w then
    advance
    return true
  else return false

def expect (w : String) : Parser Unit := do
  if !(← accept w) then fail s!"'{w}' expected"

/-- Consumes the word that ends what another word began. -/
def expectEnd (w opening : String) (line : Nat) : Parser Unit := do
  if !(← accept w) then
    if line == (← currentLine) then fail s!"'{w}' expected"
    else fail s!"'{w}' expected (to close '{opening}' at line {line})"

def name : Parser String := do
  match ← current with
  | .name s =>
    advance
    return s
  | _ => fail "<name> expected"

/-! ## Scopes -/

/-- Changes the scope of the innermost function. -/
def withScope {α : Type} (change : FunctionScope → Parser (α × FunctionScope)) : Parser α := do
  match (← get).scopes with
  | [] => fail "unexpected symbol"
  | f :: outer =>
    let (a, f) ← change f
    modify fun s => { s with scopes := f :: outer }
    return a

def declare (name : String) (kind : Attribute) : Parser Declared :=
  withScope fun f =>
    match f.declare name kind with
    | .ok result => return result
    | .error message => fail message

def openBlock (isLoop : Bool) : Parser Unit :=
  withScope fun f => return ((), f.openBlock isLoop)

def closeBlock : Parser Unit :=
  withScope fun f =>
    match f.closeBlock with
    | .ok f => return ((), f)
    | .error fault => throw fault

/-- The place of a variable, if a name is one. -/
def find (name : String) : Parser (Option (Place × Attribute)) := do
  let (found, scopes) := resolve name (← get).scopes
  if scopes.any fun f => FunctionScope.maxCaptures < f.captures.length then
    fail s!"too many upvalues (limit is {FunctionScope.maxCaptures})"
  modify fun s => { s with scopes }
  return found

/-- What a name refers to: a variable, or a field of the environment. -/
def reference (name : String) (line : Nat) : Parser Expr := do
  match ← find name with
  | some (place, _) => return .var place name
  | none =>
    match ← find "_ENV" with
    | some (place, _) => return .global place (Bytes.ofString name) line
    | none => fail "unexpected symbol"

/-- A constant variable keeps its first value. -/
def checkAssignable (target : Expr) : Parser Unit := do
  match target with
  | .var _ name =>
    match ← find name with
    | some (_, .plain) | none => return
    | some _ => failPlainly s!"attempt to assign to const variable '{name}'"
  | _ => return

def nested {α : Type} (p : Parser α) : Parser α := do
  if maxDepth ≤ (← get).depth then failPlainly "C stack overflow"
  modify fun s => { s with depth := s.depth + 1 }
  let a ← p
  modify fun s => { s with depth := s.depth - 1 }
  return a

/-! ## Operators -/

/-- How the two operands of an operator are put together. -/
inductive Join where
  | op (op : BinaryOp)
  | both
  | either

/-- The precedence of an operator on its left and on its right, and what it means. -/
def operator? : String → Option (Nat × Nat × Join)
  | "+" => some (10, 10, .op (.arith .add))
  | "-" => some (10, 10, .op (.arith .sub))
  | "*" => some (11, 11, .op (.arith .mul))
  | "%" => some (11, 11, .op (.arith .mod))
  | "^" => some (14, 13, .op (.arith .pow))
  | "/" => some (11, 11, .op (.arith .div))
  | "//" => some (11, 11, .op (.arith .floorDiv))
  | "&" => some (6, 6, .op (.arith .bitAnd))
  | "|" => some (4, 4, .op (.arith .bitOr))
  | "~" => some (5, 5, .op (.arith .bitXor))
  | "<<" => some (7, 7, .op (.arith .shiftLeft))
  | ">>" => some (7, 7, .op (.arith .shiftRight))
  | ".." => some (9, 8, .op .concat)
  | "==" => some (3, 3, .op .eq)
  | "~=" => some (3, 3, .op .ne)
  | "<" => some (3, 3, .op .lt)
  | "<=" => some (3, 3, .op .le)
  | ">" => some (3, 3, .op .gt)
  | ">=" => some (3, 3, .op .ge)
  | "and" => some (2, 2, .both)
  | "or" => some (1, 1, .either)
  | _ => none

/-- The precedence of operators with one operand. -/
def unaryPrecedence : Nat := 12

def unary? : String → Option UnaryOp
  | "-" => some .minus
  | "not" => some .negation
  | "#" => some .length
  | "~" => some .complement
  | _ => none

def currentOperator? : Parser (Option (Nat × Nat × Join)) := do
  match ← current with
  | .word s => return operator? s
  | _ => return none

def join : Join → Expr → Expr → Nat → Expr
  | .op op, a, b, line => .binary op a b line
  | .both, a, b, _ => .both a b
  | .either, a, b, _ => .either a b

/-- Whether a block ends here. -/
def isBlockEnd (untilToo : Bool) : Parser Bool := do
  match ← current with
  | .stop => return true
  | .word s => return s == "else" || s == "elseif" || s == "end" || (untilToo && s == "until")
  | _ => return false

/-- Whether nothing but labels and semicolons stand before the end of the block. -/
def endsBlock : List Lexeme → Bool
  | ⟨.word ";", _⟩ :: rest => endsBlock rest
  | ⟨.word "::", _⟩ :: ⟨.name _, _⟩ :: ⟨.word "::", _⟩ :: rest => endsBlock rest
  | ⟨.word s, _⟩ :: _ => s == "else" || s == "elseif" || s == "end"
  | ⟨.stop, _⟩ :: _ => true
  | [] => true
  | _ => false

/-! ## Expressions and statements -/

/-- Reads names after commas. -/
def moreNames : Nat → List String → Parser (List String)
  | 0, names => return names
  | fuel + 1, names => do
    if ← accept "," then moreNames fuel (names ++ [← name]) else return names

/-- The attribute behind a name at its declaration. -/
def declaredKind : Parser Attribute := do
  if ← accept "<" then
    let word ← name
    expect ">"
    match word with
    | "const" => return .const
    | "close" => return .close
    | other => fail s!"unknown attribute '{other}'"
  else return .plain

/-- Reads names with attributes, separated by commas. -/
def attributedNames : Nat → List (String × Attribute) → Parser (List (String × Attribute))
  | 0, names => return names
  | fuel + 1, names => do
    let n ← name
    let kind ← declaredKind
    let names := names ++ [(n, kind)]
    if ← accept "," then attributedNames fuel names else return names

/-- Reads parameters; the last one may stand for all surplus arguments. -/
def parameters : Nat → List String → Parser (List String × Bool)
  | 0, names => return (names, false)
  | fuel + 1, names => do
    if ← accept "..." then return (names, true)
    let names := names ++ [← name]
    if ← accept "," then parameters fuel names else return (names, false)

def declareAll (names : List (String × Attribute)) : Parser (List Declared) :=
  names.mapM fun (name, kind) => declare name kind

mutual

/-- An expression whose operators all bind tighter than `limit`. -/
def expression : Nat → Nat → Parser Expr
  | 0, _ => fail "unexpected symbol"
  | fuel + 1, limit => nested do
    let line ← currentLine
    let op ← match ← current with
      | .word s => pure (unary? s)
      | _ => pure none
    let first ← match op with
      | some op => do
        advance
        let e ← expression fuel unaryPrecedence
        pure (Expr.unary op e line)
      | none => simple fuel
    operations fuel limit first

/-- The operators and operands that follow an operand. -/
def operations : Nat → Nat → Expr → Parser Expr
  | 0, _, _ => fail "unexpected symbol"
  | fuel + 1, limit, first => do
    match ← currentOperator? with
    | none => return first
    | some (left, right, j) =>
      if left ≤ limit then return first
      else
        let line ← currentLine
        advance
        let second ← expression fuel right
        operations fuel limit (join j first second line)

def simple : Nat → Parser Expr
  | 0 => fail "unexpected symbol"
  | fuel + 1 => do
    match ← current with
    | .number n => advance; return .number n
    | .text b => advance; return .text b
    | .word "nil" => advance; return .nil
    | .word "true" => advance; return .bool true
    | .word "false" => advance; return .bool false
    | .word "..." =>
      let takes ← withScope fun f => return (f.takesSurplus, f)
      if takes then advance; return .surplus
      else fail "cannot use '...' outside a vararg function"
    | .word "\x7b" => table fuel
    | .word "function" =>
      let line ← currentLine
      advance
      return .function (← function fuel false line)
    | _ => suffixed fuel

def primary : Nat → Parser Expr
  | 0 => fail "unexpected symbol"
  | fuel + 1 => do
    match ← current with
    | .name s =>
      let line ← currentLine
      advance
      reference s line
    | .word "(" =>
      let line ← currentLine
      advance
      let e ← expression fuel 0
      expectEnd ")" "(" line
      return .single e
    | _ => fail "unexpected symbol"

def suffixed : Nat → Parser Expr
  | 0 => fail "unexpected symbol"
  | fuel + 1 => do suffixes fuel (← primary fuel)

/-- The fields, indices and calls that follow an expression. -/
def suffixes : Nat → Expr → Parser Expr
  | 0, _ => fail "unexpected symbol"
  | fuel + 1, e => do
    match ← current with
    | .word "." =>
      advance
      let key ← name
      suffixes fuel (.index e (.text (Bytes.ofString key)) (← lastLine))
    | .word "[" =>
      advance
      let key ← expression fuel 0
      expect "]"
      suffixes fuel (.index e key (← lastLine))
    | .word ":" =>
      advance
      let key ← name
      let line ← currentLine
      let arguments ← arguments fuel
      suffixes fuel (.method e (Bytes.ofString key) arguments line)
    | .word "(" | .text _ | .word "\x7b" =>
      let line ← currentLine
      let arguments ← arguments fuel
      suffixes fuel (.call e arguments line)
    | _ => return e

def arguments : Nat → Parser (List Expr)
  | 0 => fail "unexpected symbol"
  | fuel + 1 => do
    match ← current with
    | .text b => advance; return [.text b]
    | .word "\x7b" => return [← table fuel]
    | .word "(" =>
      let line ← currentLine
      advance
      if ← accept ")" then return []
      else
        let es ← expressions fuel
        expectEnd ")" "(" line
        return es
    | _ => fail "function arguments expected"

/-- Expressions separated by commas, one at least. -/
def expressions : Nat → Parser (List Expr)
  | 0 => fail "unexpected symbol"
  | fuel + 1 => do
    let e ← expression fuel 0
    if ← accept "," then return e :: (← expressions fuel) else return [e]

def table : Nat → Parser Expr
  | 0 => fail "unexpected symbol"
  | fuel + 1 => do
    let line ← currentLine
    expect "\x7b"
    let fields ← fields fuel
    expectEnd "\x7d" "\x7b" line
    return .table fields line

def fields : Nat → Parser (List Field)
  | 0 => fail "unexpected symbol"
  | fuel + 1 => do
    if ← isWord "\x7d" then return []
    let field ← field fuel
    if (← accept ",") || (← accept ";") then return field :: (← fields fuel) else return [field]

def field : Nat → Parser Field
  | 0 => fail "unexpected symbol"
  | fuel + 1 => do
    match (← get).lexemes with
    | ⟨.name key, _⟩ :: ⟨.word "=", _⟩ :: _ =>
      advance
      advance
      return .entry (.text (Bytes.ofString key)) (← expression fuel 0)
    | ⟨.word "[", _⟩ :: _ =>
      advance
      let key ← expression fuel 0
      expect "]"
      expect "="
      return .entry key (← expression fuel 0)
    | _ => return .item (← expression fuel 0)

/-- A function from its parameters on. -/
def function : Nat → Bool → Nat → Parser Function
  | 0, _, _ => fail "unexpected symbol"
  | fuel + 1, isMethod, line => do
    modify fun s => { s with scopes := {} :: s.scopes }
    expect "("
    let (names, surplus) ←
      if ← isWord ")" then pure ([], false) else parameters (← get).lexemes.length []
    expect ")"
    let names := if isMethod then "self" :: names else names
    let _ ← declareAll (names.map ((·, .plain)))
    withScope fun f => return ((), { f with takesSurplus := surplus })
    let body ← statements fuel
    expectEnd "end" "function" line
    closeBlock
    match (← get).scopes with
    | [] => fail "unexpected symbol"
    | f :: outer =>
      modify fun s => { s with scopes := outer }
      return .mk f.slots names.length surplus (f.captures.map (·.source)) body

/-- Statements up to the end of the block. -/
def statements : Nat → Parser (List Stmt)
  | 0 => fail "unexpected symbol"
  | fuel + 1 => do
    if ← isBlockEnd true then return []
    else if ← isWord "return" then return [← nested (giveStatement fuel)]
    else
      let s ← nested (statement fuel)
      return s ++ (← statements fuel)

/-- The statements of a block with a scope of its own. -/
def block : Nat → Bool → Parser (List Stmt)
  | 0, _ => fail "unexpected symbol"
  | fuel + 1, isLoop => do
    openBlock isLoop
    let body ← statements fuel
    closeBlock
    return body

def giveStatement : Nat → Parser Stmt
  | 0 => fail "unexpected symbol"
  | fuel + 1 => do
    let line ← currentLine
    expect "return"
    let values ←
      if (← isBlockEnd true) || (← isWord ";") then pure [] else expressions fuel
    let _ ← accept ";"
    if !(← isBlockEnd true) then fail "'<eof>' expected"
    return .give values line

/-- One statement; a semicolon is none. -/
def statement : Nat → Parser (List Stmt)
  | 0 => fail "unexpected symbol"
  | fuel + 1 => do
    let line ← currentLine
    match ← current with
    | .word ";" => advance; return []
    | .word "if" =>
      advance
      let (arms, otherwise) ← arms fuel line
      return [.choose arms otherwise]
    | .word "while" =>
      advance
      let condition ← expression fuel 0
      expect "do"
      let body ← block fuel true
      expectEnd "end" "while" line
      return [.loopWhile condition body]
    | .word "do" =>
      advance
      let body ← block fuel false
      expectEnd "end" "do" line
      return [.block body]
    | .word "for" =>
      advance
      return [← forStatement fuel line]
    | .word "repeat" =>
      advance
      openBlock true
      openBlock false
      let body ← statements fuel
      expectEnd "until" "repeat" line
      let condition ← expression fuel 0
      closeBlock
      closeBlock
      return [.loopUntil body condition]
    | .word "function" =>
      advance
      return [← functionStatement fuel line]
    | .word "local" =>
      advance
      return [← if ← accept "function" then localFunction fuel line else localStatement fuel]
    | .word "::" =>
      advance
      let n ← name
      expect "::"
      let isLast := endsBlock (← get).lexemes
      withScope fun f =>
        match f.placeLabel n line isLast with
        | .ok f => return ((), f)
        | .error message => failPlainly message
      return [.label n]
    | .word "break" =>
      advance
      let inLoop ← withScope fun f => return (f.isInLoop, f)
      if !inLoop then failPlainly s!"break outside a loop at line {line}"
      return [.leave]
    | .word "goto" =>
      advance
      let n ← name
      withScope fun f => return ((), f.jump n line)
      return [.jump n]
    | _ => return [← expressionStatement fuel]

/-- The conditions and blocks of a choice, from the first condition on. -/
def arms : Nat → Nat → Parser (List Arm × List Stmt)
  | 0, _ => fail "unexpected symbol"
  | fuel + 1, line => do
    let condition ← expression fuel 0
    expect "then"
    let arm := Arm.mk condition (← block fuel false)
    if ← accept "elseif" then
      let (more, otherwise) ← arms fuel line
      return (arm :: more, otherwise)
    else if ← accept "else" then
      let otherwise ← block fuel false
      expectEnd "end" "if" line
      return ([arm], otherwise)
    else
      expectEnd "end" "if" line
      return ([arm], [])

def forStatement : Nat → Nat → Parser Stmt
  | 0, _ => fail "unexpected symbol"
  | fuel + 1, line => do
    openBlock true
    let first ← name
    let result ←
      if ← isWord "=" then countLoop fuel first line
      else if (← isWord ",") || (← isWord "in") then eachLoop fuel first line
      else fail "'=' or 'in' expected"
    expectEnd "end" "for" line
    closeBlock
    return result

def countLoop : Nat → String → Nat → Parser Stmt
  | 0, _, _ => fail "unexpected symbol"
  | fuel + 1, first, line => do
    expect "="
    let start ← expression fuel 0
    expect ","
    let stop ← expression fuel 0
    let step ← if ← accept "," then expression fuel 0 else pure (.number (.int 1))
    expect "do"
    let _ ← declareAll (List.replicate 3 ("(for state)", .plain))
    openBlock false
    let v ← declare first .plain
    let body ← statements fuel
    closeBlock
    return .loopCount v.slot start stop step body line

def eachLoop : Nat → String → Nat → Parser Stmt
  | 0, _, _ => fail "unexpected symbol"
  | fuel + 1, first, line => do
    let names ← moreNames (← get).lexemes.length [first]
    expect "in"
    let values ← expressions fuel
    expect "do"
    let _ ← declareAll (List.replicate 4 ("(for state)", .plain))
    openBlock false
    let vs ← declareAll (names.map ((·, .plain)))
    let body ← statements fuel
    closeBlock
    return .loopEach (vs.map (·.slot)) values body line

/-- A function with a name: a variable, a field, or a method. -/
def functionStatement : Nat → Nat → Parser Stmt
  | 0, _ => fail "unexpected symbol"
  | fuel + 1, line => do
    let nameLine ← currentLine
    let base ← reference (← name) nameLine
    let (target, isMethod) ← functionName fuel base
    let f ← function fuel isMethod line
    checkAssignable target
    return .assign [target] [.function f] line

def functionName : Nat → Expr → Parser (Expr × Bool)
  | 0, _ => fail "unexpected symbol"
  | fuel + 1, base => do
    if ← accept "." then
      let key ← name
      functionName fuel (.index base (.text (Bytes.ofString key)) (← lastLine))
    else if ← accept ":" then
      let key ← name
      return (.index base (.text (Bytes.ofString key)) (← lastLine), true)
    else return (base, false)

def localFunction : Nat → Nat → Parser Stmt
  | 0, _ => fail "unexpected symbol"
  | fuel + 1, line => do
    let v ← declare (← name) .plain
    return .declareFunction v.slot (← function fuel false line)

def localStatement : Nat → Parser Stmt
  | 0 => fail "unexpected symbol"
  | fuel + 1 => do
    let names ← attributedNames (← get).lexemes.length []
    if 1 < (names.filter (·.2 == .close)).length then
      fail "multiple to-be-closed variables in local list"
    let values ← if ← accept "=" then expressions fuel else pure []
    let line ← lastLine
    return .declare (← declareAll names) values line

def expressionStatement : Nat → Parser Stmt
  | 0 => fail "unexpected symbol"
  | fuel + 1 => do
    let e ← suffixed fuel
    if (← isWord "=") || (← isWord ",") then
      let targets ← targets fuel e
      expect "="
      let values ← expressions fuel
      return .assign targets values (← lastLine)
    else
      match e with
      | .call .. | .method .. => return .run e
      | _ => fail "syntax error"

/-- The targets of an assignment, the first one already read. -/
def targets : Nat → Expr → Parser (List Expr)
  | 0, _ => fail "unexpected symbol"
  | fuel + 1, e => do
    match e with
    | .var .. | .global .. | .index .. => checkAssignable e
    | _ => fail "syntax error"
    if ← accept "," then return e :: (← targets fuel (← suffixed fuel)) else return [e]

end

/-- A whole script: a function of any arguments with the environment as its only capture. -/
def script (fuel : Nat) : Parser Function := do
  checkToken
  let body ← statements fuel
  match ← current with
  | .stop => closeBlock
  | _ => fail "'<eof>' expected"
  let slots ← withScope fun f => return (f.slots, f)
  return .mk slots 0 true [.own 0] body

end Parser

/-- Reads a script. -/
def parse (script : Bytes) : Except SyntaxFault Function :=
  if script.byteAt 0 == 27 then .error ⟨1, "attempt to load a binary chunk (mode is 't')"⟩
  else
    let lexemes := tokenize script
    let environment : FunctionScope :=
      { captures := [⟨"_ENV", .own 0, .plain⟩], takesSurplus := true }
    (Parser.script (4 * lexemes.length + 16)).run { lexemes, scopes := [environment] }
      |>.map (·.1)

end Multisample.Script
