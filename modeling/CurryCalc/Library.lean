import CurryCalc.FaultSpec
import CurryCalc.Workbench

/-! The names under which the library is used from outside. -/
namespace CurryCalc

/-- Builders, the steps from a text to a closure, and the kinds of problems. -/
def publicNames : List String := [
  "Props", "tokenize", "parse_and_compile", "Invoker", "Program",
  "GenericException", "MalformedArgumentToken", "ParseError", "UnboundIdentifier",
  "ArgumentIndexOutOfRange", "NonBooleanCondition", "NonNumericOperand", "TooManyArguments",
  "NonContiguousArguments", "NestingTooDeep"]

end CurryCalc
