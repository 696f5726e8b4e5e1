import McpGateway.Shared.Errors

/-!
# Scopes
-/

namespace McpGateway.Shared

open Js

def scopeNamespace (scope : JsString) : JsString := scope.takeWhile (· ≠ colon)

def hasScope (held : List JsString) (required : JsString) : Bool :=
  held.contains required || held.contains (scopeNamespace required ++ js ":*")

end McpGateway.Shared
