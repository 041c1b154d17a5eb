import JsonSpan.Bytes

/-!
# Terminal styles

A styled text stands between a terminal code that starts its style and the one that resets it. A
reset inside the text would end the style too early, so the start is repeated after it.
-/

namespace JsonSpan

/-- A style, by the parameters of its terminal code. -/
inductive Style where
  | key
  | string
  | number
  | boolean
  | null
  | noMatch
  | error
  deriving DecidableEq, Repr

namespace Style

/-- The parameters of a style: colours, bold and dimmed. -/
def parameters : Style → String
  | key => "36"
  | string => "32"
  | number => "33"
  | boolean => "1;33"
  | null => "2;31"
  | noMatch => "2"
  | error => "1;31"

/-- The code that starts a style. -/
def start (s : Style) : Bytes :=
  Byte.escape :: Byte.openBracket :: utf8 s.parameters ++ [Byte.ofChar 'm']

/-- The code that ends every style. -/
def reset : Bytes :=
  [Byte.escape, Byte.openBracket, Byte.ofChar '0', Byte.ofChar 'm']

/-- A text with some bytes put after each reset in it. -/
def afterResets (extra : Bytes) : Bytes → Bytes
  | a :: b :: c :: d :: r =>
    if [a, b, c, d] = reset then reset ++ extra ++ afterResets extra r
    else a :: afterResets extra (b :: c :: d :: r)
  | r => r

/-- A text in a style, in the pieces in which it is written; without colour just the text. -/
def paint (color : Bool) (s : Style) (text : Bytes) : List Bytes :=
  if color then [s.start, afterResets s.start text, reset] else [text]

end Style

end JsonSpan
