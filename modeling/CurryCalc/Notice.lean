import CurryCalc.Text.Style
import CurryCalc.Writing

/-! Problems ready to be shown: the message, and the offending expression with its underlined
part. -/
namespace CurryCalc

structure Notice where
  message : String
  expr : String
  start : Int
  stop : Int
  underline : Bool
  internal : Bool
deriving DecidableEq, Repr

/-- Fills in the message; quoted texts are bold in it. -/
def Draft.notice (style : Style) (d : Draft) : Except Failure Notice :=
  match Template.fill d.template (d.quotes.map style.bold) with
  | .error e => .error (.badTemplate e)
  | .ok message =>
    match d.quotes with
    | [] => .error .nothingQuoted
    | expr :: _ =>
      .ok ⟨message, expr, d.start, if d.stop = -1 then expr.length else d.stop, d.underline,
        d.internal⟩

def Fault.notice (style : Style) (cause : Fault) : Except Failure Notice := cause.draft.notice style

namespace Notice

def repeated (c : Char) (n : Int) : String := String.ofList (List.replicate n.toNat c)

/-- The expression, and under it a mark below the offending part. The mark is at least one
character wide. -/
def diagnosis (style : Style) (hue : Hue) (n : Notice) : String :=
  let stop := max n.stop (n.start + 1)
  "  " ++ excerptTo n.expr n.start ++ style.mark hue (excerpt n.expr n.start stop) ++
    excerptFrom n.expr stop ++ "\n  " ++ repeated ' ' n.start ++
    style.mark hue ("^" ++ repeated '~' (stop - n.start - 1))

end Notice

end CurryCalc
