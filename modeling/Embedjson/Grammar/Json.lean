import Embedjson.Parser.Stack

/-! JSON values, their serialisation as tokens and their traversal by callbacks. A string is given by
the chunks in which it is delivered. -/

namespace Embedjson

variable {δ : Type}

abbrev Text := List (List UInt8)

/-- The tokens of the grammar. A string is one of them. -/
inductive Lexeme (δ : Type) where
  | tok (token : Tok)
  | int (value : ℤ)
  | double (value : δ)
  | string (text : Text)

/-- The calls of the lexer for a token, without positions. -/
def Lexeme.calls : Lexeme δ → List (LexerCall δ)
  | tok t => [.token t .null]
  | int v => [.tokeni v .null]
  | double v => [.tokenf v .null]
  | string text => .tokencBegin .null :: text.map (.tokenc .null) ++ [.tokencEnd .null]

inductive Json (δ : Type) where
  | null
  | bool (value : Bool)
  | int (value : ℤ)
  | double (value : δ)
  | string (text : Text)
  | array (elements : List (Json δ))
  | object (members : List (Text × Json δ))

/-- Two ways to separate the members of an object. The documented one writes a comma between any two
of them, the implemented one leaves it out behind an empty array. -/
inductive Dialect where
  | documented
  | implemented
  deriving DecidableEq

namespace Dialect

def afterEmptyArray : Dialect → ParserState
  | documented => .maybeObjectComma
  | implemented => .maybeObjectKey

end Dialect

namespace Json

def isEmptyArray : Json δ → Bool
  | array [] => true
  | _ => false

def separator (d : Dialect) (v : Json δ) : List (Lexeme δ) :=
  if d = .implemented ∧ v.isEmptyArray then [] else [.tok .comma]

mutual

def serialise (d : Dialect) : Json δ → List (Lexeme δ)
  | null => [.tok .null]
  | bool true => [.tok .true]
  | bool false => [.tok .false]
  | int v => [.int v]
  | double v => [.double v]
  | string text => [.string text]
  | array es => .tok .openBracket :: serialiseElements d es ++ [.tok .closeBracket]
  | object ms => .tok .openCurlyBracket :: serialiseMembers d ms ++ [.tok .closeCurlyBracket]

def serialiseElements (d : Dialect) : List (Json δ) → List (Lexeme δ)
  | [] => []
  | v :: es => serialise d v ++
      (if es.isEmpty then [] else .tok .comma :: serialiseElements d es)

def serialiseMembers (d : Dialect) : List (Text × Json δ) → List (Lexeme δ)
  | [] => []
  | (k, v) :: ms => .string k :: .tok .colon :: serialise d v ++
      (if ms.isEmpty then [] else separator d v ++ serialiseMembers d ms)

end

def textCalls (text : Text) : List (UserCall δ) :=
  .stringBegin :: text.map .stringChunk ++ [.stringEnd]

mutual

/-- The callbacks of a depth-first traversal in document order. -/
def traversal : Json δ → List (UserCall δ)
  | null => [.null]
  | bool b => [.bool b]
  | int v => [.int v]
  | double v => [.double v]
  | string text => textCalls text
  | array es => .arrayBegin :: traverseElements es ++ [.arrayEnd]
  | object ms => .objectBegin :: traverseMembers ms ++ [.objectEnd]

def traverseElements : List (Json δ) → List (UserCall δ)
  | [] => []
  | v :: es => traversal v ++ traverseElements es

def traverseMembers : List (Text × Json δ) → List (UserCall δ)
  | [] => []
  | (k, v) :: ms => textCalls k ++ traversal v ++ traverseMembers ms

end

mutual

def depth : Json δ → ℕ
  | array es => depthElements es + 1
  | object ms => depthMembers ms + 1
  | _ => 0

def depthElements : List (Json δ) → ℕ
  | [] => 0
  | v :: es => max (depth v) (depthElements es)

def depthMembers : List (Text × Json δ) → ℕ
  | [] => 0
  | (_, v) :: ms => max (depth v) (depthMembers ms)

end

mutual

/-- No object has an empty array for a member that is not the last one. -/
def Clean : Json δ → Prop
  | array es => CleanElements es
  | object ms => CleanMembers ms
  | _ => True

def CleanElements : List (Json δ) → Prop
  | [] => True
  | v :: es => Clean v ∧ CleanElements es

def CleanMembers : List (Text × Json δ) → Prop
  | [] => True
  | (_, v) :: ms => Clean v ∧ (v.isEmptyArray = true → ms = []) ∧ CleanMembers ms

end

section Lists

def elementsBefore (d : Dialect) (es : List (Json δ)) : List (Lexeme δ) :=
  es.flatMap fun v => serialise d v ++ [.tok .comma]

def member (d : Dialect) (k : Text) (v : Json δ) : List (Lexeme δ) :=
  .string k :: .tok .colon :: serialise d v

def membersBefore (d : Dialect) (ms : List (Text × Json δ)) : List (Lexeme δ) :=
  ms.flatMap fun m => member d m.1 m.2 ++ separator d m.2

lemma serialiseElements_concat (d : Dialect) (es : List (Json δ)) (v : Json δ) :
    serialiseElements d (es ++ [v]) = elementsBefore d es ++ serialise d v := by
  induction es with
  | nil => simp [serialiseElements, elementsBefore]
  | cons w es ih =>
    rw [List.cons_append, serialiseElements, ih]
    simp [elementsBefore]

lemma serialiseMembers_concat (d : Dialect) (ms : List (Text × Json δ)) (k : Text) (v : Json δ) :
    serialiseMembers d (ms ++ [(k, v)]) = membersBefore d ms ++ member d k v := by
  induction ms with
  | nil => simp [serialiseMembers, membersBefore, member]
  | cons m ms ih =>
    obtain ⟨l, w⟩ := m
    rw [List.cons_append, serialiseMembers, ih]
    simp [membersBefore, member]

lemma traverseElements_append (es fs : List (Json δ)) :
    traverseElements (es ++ fs) = traverseElements es ++ traverseElements fs := by
  induction es with
  | nil => rfl
  | cons v es ih => rw [List.cons_append, traverseElements, ih, traverseElements, List.append_assoc]

lemma traverseMembers_append (ms ns : List (Text × Json δ)) :
    traverseMembers (ms ++ ns) = traverseMembers ms ++ traverseMembers ns := by
  induction ms with
  | nil => rfl
  | cons m ms ih =>
    obtain ⟨k, v⟩ := m
    rw [List.cons_append, traverseMembers, ih, traverseMembers]
    simp only [List.append_assoc]

end Lists

end Json

end Embedjson
