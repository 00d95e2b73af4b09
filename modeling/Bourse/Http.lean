import Bourse.Http.MediaType
import Bourse.Http.Target
import Bourse.Text.Whole
import Bourse.Wire.Service

/-!
# The service over HTTP

Requests name what they are about by their path. A request is checked from the outside in: the
path, then the method, then the parameters in the path, then the query or the body. What is left is
a request to the service, whose errors have their own status each.
-/

namespace Bourse.Http

/-- A request. Without a body there is no content type. -/
structure Request where
  method : String
  uri : String
  contentType : Option String
  body : String

/-- The content of an answer. The wording of an answer to a malformed request is left open. -/
inductive Content where
  | json (j : Json)
  | text (s : String)
  | unspecified

/-- The answer to a request. -/
structure Response where
  status : Nat
  content : Content

/-- What a path stands for. Parameters are still escaped. -/
inductive Route where
  | health
  | orders
  | order (id : String)
  | confirm (id : String)
  | cancel (id : String)
  | userOrders (user : String)
  | cancelAll (user : String)
  | userTrades (user : String)
  | best

namespace Route

/-- The route of a path. A parameter at its end must not be empty. -/
def ofSegments? : List String → Option Route
  | ["", "health"] => some health
  | ["", "orders"] => some orders
  | ["", "orders", id] => if id.isEmpty then none else some (order id)
  | ["", "orders", id, "confirm"] => some (confirm id)
  | ["", "orders", id, "cancel"] => some (cancel id)
  | ["", "users", user, "orders"] => some (userOrders user)
  | ["", "users", user, "orders", "cancel-all"] => some (cancelAll user)
  | ["", "users", user, "trades"] => some (userTrades user)
  | ["", "market", "best"] => some best
  | _ => none

/-- Whether a route changes something and so is asked with `POST`. -/
def changes : Route → Bool
  | orders | confirm _ | cancel _ | cancelAll _ => true
  | _ => false

/-- Whether a route can be asked with a method. -/
def allows (r : Route) (method : String) : Bool :=
  if r.changes then method == "POST" else method == "GET" || method == "HEAD"

end Route

/-- A piece of a request, or the status of the answer if it cannot be had. -/
abbrev Part (α : Type) := Except Nat α

/-- The name of an order in a path. -/
def orderParameter (s : String) : Part OrderId :=
  match (decodeParameter? s).bind Uuid.ofText? with
  | some u => .ok ⟨u⟩
  | none => .error 400

/-- A 64-bit number, as it is typed. -/
def word? (s : String) : Option UInt64 :=
  (Text.whole? UInt64.size s.toList).map UInt64.ofNat

/-- The number of a user in a path. -/
def userParameter (s : String) : Part UserId :=
  match (decodeParameter? s).bind word? with
  | some n => .ok ⟨n⟩
  | none => .error 400

/-- A value of a query, which must not come twice. -/
def queryValue {α : Type} (query : List (String × String)) (name : String)
    (read : String → Option α) : Part (Option α) :=
  match query.filter (·.1 == name) with
  | [] => .ok none
  | [(_, value)] =>
    match read value with
    | some a => .ok (some a)
    | none => .error 400
  | _ => .error 400

/-- The page that a query asks for, brought into range. -/
def pageQuery (query : List (String × String)) : Part PageRequest := do
  let page ← queryValue query "page" word?
  let pageSize ← queryValue query "page_size" word?
  return .clamped (page.getD PageRequest.standard.page)
    (pageSize.getD PageRequest.standard.pageSize)

/-- The symbol and the product that a query asks for. -/
def marketQuery (query : List (String × String)) : Part (String × TradingType) := do
  let symbol ← queryValue query "symbol" some
  let tradingType ← queryValue query "trading_type" fun s => TradingType.names.lookup s
  match symbol with
  | some symbol => return (symbol, tradingType.getD .spot)
  | none => throw 400

/-- The value in a body. What follows it does not matter. -/
def body {α : Type} (read : Json.Reader α) (r : Request) : Part α :=
  if (r.contentType.map isJsonType).getD false then
    match Json.readFront read r.body with
    | .ok a => .ok a
    | .error .malformed => .error 400
    | .error .mismatched => .error 422
  else .error 415

/-- The body of a request to cancel an order. -/
def cancelBody : Json.RecordReader (UserId × Option String) :=
  Prod.mk
    <$> .required "user_id" Wire.readUserId
    <*> .defaulted "reason" (.option .string) none

/-- The body of a request to cancel all orders. -/
def reasonBody : Json.RecordReader (Option String) :=
  .defaulted "reason" (.option .string) none

/-- The status that tells a client why a request is not carried out. -/
def statusOf : ServiceError → Nat
  | .invalidArgument _ => 400
  | .invalidState _ => 409
  | .notFound _ => 404
  | .forbidden _ _ => 403
  | .insufficientBalance _ _ => 422
  | .lockFailed _ => 422
  | .ledgerUnavailable _ => 503
  | .store _ => 500

namespace Response

/-- The answer to a malformed request. -/
def refused (status : Nat) : Response := ⟨status, .unspecified⟩

def ofJson (status : Nat) (j : Json) : Response := ⟨status, .json j⟩

/-- The answer to a request that is not carried out. -/
def ofError (e : ServiceError) : Response :=
  ofJson (statusOf e) (.record [("error", .string e.message)])

end Response

/-- Carries out a request to the service and writes the answer. -/
def serve {ε α : Type} (status : Nat) (write : α → Json) (t : Task ServiceError α) :
    Task ε Response := do
  match ← t.attempt with
  | .ok a => return .ofJson status (write a)
  | .error e => return .ofError e

/-- Goes on with a piece of a request, or answers that it cannot be had. -/
def withPart {ε α : Type} (a : Part α) (f : α → Task ε Response) : Task ε Response :=
  match a with
  | .ok a => f a
  | .error status => return .refused status

/-- The orders that were cancelled, and how many they are. -/
def writeCancelled (orders : List Order) : Json :=
  .record [("cancelled", .nat orders.length), ("orders", Wire.writeOrders orders)]

/-- Answers a request whose path and method are known. -/
def answerRoute {ε : Type} (e : Engine) (query : List (String × String)) (r : Request) :
    Route → Task ε Response
  | .health => return ⟨200, .text "ok"⟩
  | .orders => withPart (body Wire.readNewOrder r) fun request =>
    serve 201 Wire.writeOrderPlacement (Service.createOrder e request)
  | .order id => withPart (orderParameter id) fun id =>
    serve 200 Wire.writeOrder (Service.getOrder id)
  | .confirm id => withPart (orderParameter id) fun id =>
    serve 200 (fun confirmed => .record [("confirmed", .bool confirmed)])
      (Service.confirmIfPending id)
  | .cancel id => withPart (orderParameter id) fun id =>
    withPart (body cancelBody.read r) fun (user, reason) =>
      serve 200 Wire.writeOrder
        (Service.cancelOrder id user (reason.getD "cancelled by user"))
  | .userOrders user => withPart (userParameter user) fun user =>
    withPart (pageQuery query) fun page =>
      serve 200 (Wire.writePage Wire.writeOrder) (Service.listOrders user page)
  | .cancelAll user => withPart (userParameter user) fun user =>
    let reason := (body reasonBody.read r).toOption.join
    serve 200 writeCancelled (Service.cancelAll user (reason.getD "cancel all"))
  | .userTrades user => withPart (userParameter user) fun user =>
    withPart (pageQuery query) fun page =>
      serve 200 (Wire.writePage Wire.writeTrade) (Service.listTrades user page)
  | .best => withPart (marketQuery query) fun (symbol, tradingType) =>
    serve 200 Wire.writeBestBidAsk (Service.bestBidAsk symbol tradingType)

/-- Answers a request: the path decides the route, and the route whether the method fits. -/
def respond {ε : Type} (e : Engine) (r : Request) : Task ε Response :=
  let target := Target.ofText r.uri
  match Route.ofSegments? target.segments with
  | none => return .refused 404
  | some route =>
    if route.allows r.method then answerRoute e target.query r route
    else return .refused 405

end Bourse.Http
