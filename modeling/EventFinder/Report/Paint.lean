import EventFinder.Text

/-!
# Paint

Text on a terminal is painted by codes in front of it and behind it. A text that switches its paint
off itself would lose the rest of the paint there, so every such place is followed by the code in
front once more. Where painting is off, text stays as it is.
-/

set_option autoImplicit false

namespace EventFinder

/-- The ways in which text can be painted. -/
inductive Paint where
  | bold
  | red
  | yellow
  | cyan
  deriving DecidableEq, Repr

namespace Paint

/-- The number of the code that switches to the paint. -/
def code : Paint → Text
  | bold => ['1']
  | red => ['3', '1']
  | yellow => ['3', '3']
  | cyan => ['3', '6']

/-- The start of every code. -/
def escape : Text := ['\x1B', '[']

/-- The code that switches to the paint. -/
def start (paint : Paint) : Text :=
  escape ++ paint.code ++ ['m']

/-- The code that switches every paint off. -/
def reset : Text := escape ++ ['0', 'm']

/-- The text with a code behind every place where it switches paint off. -/
def resume (start : Text) : Text → Text
  | '\x1B' :: '[' :: '0' :: 'm' :: rest => reset ++ start ++ resume start rest
  | c :: rest => c :: resume start rest
  | [] => []

/-- The text in the paint, where painting is on. -/
def apply (paint : Paint) (on : Bool) (text : Text) : Text :=
  if on then paint.start ++ resume paint.start text ++ reset else text

end Paint

end EventFinder
