import Polyglot.Admin.Key
import Polyglot.Admin.Route
import Polyglot.Engine.Basic

namespace Polyglot.Admin

structure Request where
  method : String
  path : String
  headers : List Header
deriving DecidableEq

inductive Answer where
  | health
  | metrics (r : Metrics.Reading)
  | headersOnly
  | reconciled (report : Reconciliation.Report)
  | backfilled (summary : Backfill.Summary)
  | unauthorized
  | failed (e : Error)
  | noRoute
  | wrongMethod
  | badPath
deriving DecidableEq

def Answer.status : Answer → Nat
  | .health => 200
  | .metrics _ => 200
  | .headersOnly => 200
  | .reconciled _ => 200
  | .backfilled _ => 200
  | .unauthorized => 401
  | .failed e => if e.isNotFound then 404 else 500
  | .noRoute => 404
  | .wrongMethod => 405
  | .badPath => 400

def Answer.error? : Answer → Option String
  | .unauthorized => some "unauthorized"
  | .failed e => some e.message
  | _ => none

/-- The flows ask for the key first, so that without it every request to them is answered alike. -/
def serve (key : Option String) (headers : List Header) (e : Engine) :
    Route → Service (Answer × Engine)
  | .health => return (.health, e)
  | .metrics => return (.metrics e.metrics.read, e)
  | .reconcile type =>
      if !verify key (providedKey headers) then return (.unauthorized, e)
      else do
        match ← e.reconcile type with
        | (.ok report, e) => return (.reconciled report, e)
        | (.error error, e) => return (.failed error, e)
  | .backfill code =>
      if !verify key (providedKey headers) then return (.unauthorized, e)
      else do
        let (summary, e) ← e.backfill code
        return (.backfilled summary, e)

/-- Answers one request. `key` is the key of the admin routes, where one is set. -/
def respond (key : Option String) (e : Engine) (r : Request) : Service (Answer × Engine) :=
  match target r.path with
  | .nowhere => return (.noRoute, e)
  | .undecodable method => return (if r.method = method then .badPath else .wrongMethod, e)
  | .route route =>
      if r.method = route.method then serve key r.headers e route
      else if r.method = "HEAD" ∧ route.method = "GET" then return (.headersOnly, e)
      else return (.wrongMethod, e)

end Polyglot.Admin
