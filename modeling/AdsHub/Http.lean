import AdsHub.Lib.Json

/-!
# AdsHub.Http — what goes over the wire

The two HTTP values the hub's code deals in: the exception an endpoint raises,
and the write an adapter sends to an advertising platform.
-/

namespace AdsHub

/-- `HTTPException(status_code, detail)`. -/
structure HttpException (δ : Type*) where
  statusCode : ℕ
  detail : δ

/-- The body of a write: `data=` (a form) or `json=`. -/
inductive Body where
  | form (fields : List (String × String))
  | json (fields : List (String × Json))

/-- `client.post(url, headers=..., data=... / json=...)`. -/
structure HttpPost where
  url : String
  headers : List (String × String)
  body : Body

end AdsHub
