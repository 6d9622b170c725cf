/-! # Colours of a terminal

A library gives texts their colours. Reports do not depend on how it does so. Here it is done with
escape sequences, which change the look of what follows them: a painted text turns a colour on in front
of it and the usual colour on behind it.
-/

namespace LosslessSyntax

/-- The colours that reports use. -/
inductive Color where
  | red
  | green
  | yellow
  | cyan
  | gray
deriving DecidableEq, Repr, Inhabited

/-- A library that gives texts their colours. -/
structure Painter where
  /-- A text in a colour. -/
  paint : Color → String → String
  /-- A text in a colour and bold. -/
  paintBold : Color → String → String

/-- The number that turns a colour on. -/
def Color.code : Color → Nat
  | .red => 31
  | .green => 32
  | .yellow => 33
  | .cyan => 36
  | .gray => 90

namespace Painter

/-- The escape sequence of a number. -/
def escape (code : Nat) : String := "\x1b[" ++ toString code ++ "m"

/-- A text in a colour. -/
def painted (color : Color) (text : String) : String := escape color.code ++ text ++ escape 39

/-- Painting with escape sequences. -/
def terminal : Painter where
  paint := painted
  paintBold color text := escape 1 ++ painted color text ++ escape 0

end Painter

end LosslessSyntax
