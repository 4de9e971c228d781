import WorkspaceAuthz.Service.Repository

/-! # Seats

The requests that set the limit of a product and give and take its seats. The
repository counts, assigns and writes the tuple in one call.
-/
namespace WorkspaceAuthz.Service
open Go Authz Interleaving

/-- The limit of a product; without one it is zero and has no meaning. -/
structure SeatLimit where
  sku : GoString
  limit : ℤ := 0
  limited : Bool := false
deriving DecidableEq, Repr

def errSkuRequired : ServiceError := ⟨.invalidArgument, "sku is required", []⟩

def errSeatRequired : ServiceError := ⟨.invalidArgument, "sku and user_id are required", []⟩

variable (p : Principal)

/-- Without a limit the cap is cleared. -/
def setSeatLimit (sku : GoString) (limit : Option ℤ) : ServiceM SeatLimit := do
  if sku = [] then throw errSkuRequired
  if limit.any (· < 0) then throw ⟨.invalidArgument, "seat limit must be >= 0", []⟩
  call (.ensureProjectActive p)
  call (.setSeatLimit p.projectID p.tenantID sku limit)
  return ⟨sku, limit.getD 0, limit.isSome⟩

def seatUsage (sku : GoString) : ServiceM SeatUsage := do
  if sku = [] then throw errSkuRequired
  call (.getSeatUsage p.projectID p.tenantID sku)

/-- Whether the user held the seat already. -/
def assignSeat (sku userID : GoString) : ServiceM Bool := do
  if sku = [] ∨ userID = [] then throw errSeatRequired
  call (.ensureProjectActive p)
  let now ← call .now
  call (.assignSeatAndTuple ⟨p.projectID, p.tenantID, sku, userID, now⟩ (seatTuple sku userID))

def revokeSeat (sku userID : GoString) : ServiceM Unit := do
  if sku = [] ∨ userID = [] then throw errSeatRequired
  call (.ensureProjectActive p)
  call (.revokeSeatAndTuple p.projectID p.tenantID sku userID (seatTuple sku userID))

def listSeats (sku : GoString) : ServiceM (List SeatAssignment) := do
  if sku = [] then throw errSkuRequired
  call (.listSeats p.projectID p.tenantID sku)

end WorkspaceAuthz.Service
