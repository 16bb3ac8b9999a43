/-! Emphasis in printed text. What it looks like is up to the terminal: a style is any choice of
marks around the text. -/
namespace CurryCalc

structure Marks where
  opening : String
  closing : String
deriving DecidableEq, Repr

def Marks.around (marks : Marks) (s : String) : String := marks.opening ++ s ++ marks.closing

inductive Hue where
  | red
  | magenta
deriving DecidableEq, Repr

structure Style where
  boldMarks : Marks
  redMarks : Marks
  magentaMarks : Marks
deriving DecidableEq, Repr

namespace Style

def bold (style : Style) (s : String) : String := style.boldMarks.around s

/-- Bold and in colour. -/
def mark (style : Style) : Hue → String → String
  | .red, s => style.redMarks.around s
  | .magenta, s => style.magentaMarks.around s

def plain : Style := ⟨⟨"", ""⟩, ⟨"", ""⟩, ⟨"", ""⟩⟩

/-- The marks of terminals that understand escape codes. -/
def ansi : Style :=
  ⟨⟨"\x1b[1m", "\x1b[0m"⟩, ⟨"\x1b[1m\x1b[31m", "\x1b[0m"⟩, ⟨"\x1b[1m\x1b[35m", "\x1b[0m"⟩⟩

end Style

end CurryCalc
