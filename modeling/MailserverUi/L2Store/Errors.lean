import MailserverUi.Core.Text

/-!
# Errors a request is answered with (`exceptions.py`)
-/
namespace MailserverUi.L2.Errors

open Py

/-- A piece of an error text: literal, or `{value!r}`. -/
inductive Piece where
  | text (s : Str)
  | repr (s : Str)
  deriving DecidableEq, Repr

/-- A `BaseAPIException` with its status code and detail, or any other
exception, which is answered with 500.
mirrors backend/app/exceptions.py:14-26 -/
inductive ApiError where
  | api (statusCode : Nat) (detail : List Piece)
  | internal
  deriving DecidableEq, Repr

/-- mirrors backend/app/exceptions.py:29-33 -/
def badRequest (detail : List Piece) : ApiError := .api 400 detail

/-- mirrors backend/app/exceptions.py:36-43 -/
def notFound (resource : String) (resourceId : Str) : ApiError :=
  .api 404 [.text resource.toList, .text " with ID ".toList, .text resourceId,
    .text " not found".toList]

/-- mirrors backend/app/exceptions.py:46-50 -/
def conflict (detail : List Piece) : ApiError := .api 409 detail

/-- A literal piece. -/
def lit (s : String) : Piece := .text s.toList

/-- mirrors backend/app/exceptions.py:53-57 -/
def unauthorized (detail : String) : ApiError := .api 401 [lit detail]

/-- mirrors backend/app/exceptions.py:60-64 -/
def forbidden (detail : List Piece) : ApiError := .api 403 detail

end MailserverUi.L2.Errors
