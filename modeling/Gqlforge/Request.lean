import Gqlforge.Builder
import Gqlforge.PlanChecks
import Gqlforge.AuthPlanner
import Gqlforge.SelectionSets

namespace Gqlforge.Request

open Json Document Errors Schema Plan Builder PlanChecks SelectionSets

structure Request where
  query : String
  operationName : Option String
  vars : Variables
  extensions : Object ConstValue

structure Frontend where
  parse : String → Except String ExecutableDocument
  printer : Printer Value

def planTransforms (printer : Printer Value) (plan : OperationPlan Value) : OperationPlan Value :=
  SelectionSets.transform printer
    (CheckCache.transform
      (CheckDedupe.transform
        (AuthPlanner.transform
          (CheckProtected.transform
            (CheckConst.transform plan)))))

def createPlan (frontend : Frontend) (blueprint : Blueprint) (fuel : Nat) (request : Request) :
    Option (Except Error (OperationPlan Value)) :=
  match frontend.parse request.query with
  | .error message => some (.error (.parse message))
  | .ok document =>
    (build blueprint document fuel request.operationName).map fun
      | .error error => .error (.build error)
      | .ok plan => .ok (planTransforms frontend.printer plan)

end Gqlforge.Request
