/-!
# Pieces of printed text

Printed text is a row of pieces, each with or without a colour. A colour is an escape sequence
before the text and a reset after it; without colours the bare texts remain. The one exception is
the mark of a nested function, which has brackets in colour only.
-/

namespace ValueMachine.Printing

inductive Paint where
  | number
  | text
  | truth
  /-- Null, undefined and the marks for what is left out. -/
  | faint
  | typeName
  | function
  /-- Brackets at a nesting depth. -/
  | bracket (depth : Nat)

/-- Starts an escape sequence. -/
def escapeStart : List Char := ['\x1b', '[']

/-- The code of a paint. Brackets take turns among three colours. -/
def Paint.code : Paint → String
  | number => "38;5;151"
  | text => "38;5;173"
  | truth => "34"
  | faint => "90"
  | typeName => "38;5;79"
  | function => "36"
  | bracket depth =>
    match depth % 3 with
    | 0 => "38;5;220"
    | 1 => "38;5;176"
    | _ => "38;5;111"

def sequence (code : String) : List Char := escapeStart ++ code.toList ++ ['m']

def reset : List Char := sequence "0"

inductive Piece where
  | plain (content : List Char)
  | painted (paint : Paint) (content : List Char)
  | functionMark

def coloured (paint : Paint) (content : List Char) : List Char :=
  sequence paint.code ++ content ++ reset

/-- The text of a piece, in colour or without. -/
def Piece.write (colors : Bool) : Piece → List Char
  | plain content => content
  | painted paint content => if colors then coloured paint content else content
  | functionMark =>
    if colors then coloured .typeName "[Function]".toList else "Function".toList

def write (colors : Bool) (pieces : List Piece) : List Char := pieces.flatMap (·.write colors)

end ValueMachine.Printing
