/-! # Faults of GraphQL requests

What can go wrong on the way from a query to its answer, access to the site included.
-/

namespace GroupCalendar

/-- Why no access token could be had. -/
inductive TokenFetchError where
  | signing (message : String)
  | transport (message : String)
  | invalidStatus (status : Nat)
  | decode (message : String)
  deriving DecidableEq, Repr

def TokenFetchError.message : TokenFetchError → String
  | .signing message => s!"JWTアサーションの署名に失敗: {message}"
  | .transport message => s!"トークン取得リクエストに失敗: {message}"
  | .invalidStatus status => s!"invalid status code when fetching token: {status}"
  | .decode message => s!"トークンレスポンスのデコードに失敗: {message}"

inductive GraphQlError where
  | auth (error : TokenFetchError)
  | emptyQuery
  | network (message : String)
  | http (status : Nat) (body : String)
  | decode (message : String)
  | function (message : String)
  deriving DecidableEq, Repr

def GraphQlError.message : GraphQlError → String
  | .auth error => s!"アクセストークンの取得に失敗: {error.message}"
  | .emptyQuery => "クエリが空です"
  | .network message => s!"ネットワークエラー: {message}"
  | .http status _ => s!"expected status code 200, got {status}"
  | .decode message => s!"レスポンスのデコードに失敗: {message}"
  | .function message => s!"lambda execution error: {message}"

end GroupCalendar
