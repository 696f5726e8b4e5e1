import McpGateway.Js.String

/-!
# The directory

Subjects, clients and entitlements of the identity provider. A `Map` built from
a list keeps the last entry of a key. A record read from the seed also answers to
the names every object inherits.
-/

namespace McpGateway.Idp

open Js

inductive Role
  | admin
  | manager
  | analyst
  | viewer
  deriving DecidableEq, Repr

def Role.text : Role → JsString
  | .admin => js "admin"
  | .manager => js "manager"
  | .analyst => js "analyst"
  | .viewer => js "viewer"

structure SeedUser where
  id : JsString
  email : JsString
  password : JsString
  name : JsString
  tenantId : JsString
  role : Role
  territory : Option JsString
  deriving DecidableEq, Repr

structure SeedClient where
  clientId : JsString
  clientSecret : Option JsString
  confidential : Bool
  redirectUris : List JsString
  allowedScopes : List JsString
  allowedGrants : List JsString
  deriving DecidableEq, Repr

structure Seed where
  scopeSets : List (JsString × List JsString)
  audienceNamespaces : List (JsString × List JsString)
  users : List SeedUser
  clients : List SeedClient
  deriving DecidableEq, Repr

def alwaysGranted : List JsString :=
  [js "openid", js "profile", js "email", js "policy:evaluate", js "policy:read"]

/-- What `seed.audienceNamespaces[audience] ?? []` can be: a list, or a property of
`Object.prototype` with the `length` it has. -/
inductive Namespaces
  | array (names : List JsString)
  | inherited (length : Option Nat)
  deriving DecidableEq, Repr

/-- The properties of `Object.prototype`. -/
def objectPrototype : List (JsString × Option Nat) :=
  [(js "constructor", some 1), (js "__defineGetter__", some 2), (js "__defineSetter__", some 2),
    (js "hasOwnProperty", some 1), (js "__lookupGetter__", some 1), (js "__lookupSetter__", some 1),
    (js "isPrototypeOf", some 1), (js "propertyIsEnumerable", some 1), (js "toString", some 0),
    (js "valueOf", some 0), (js "__proto__", none), (js "toLocaleString", some 0)]

namespace Seed

/-- Emails are compared without case; only the case of ASCII letters is folded here. -/
def findUserByEmail (seed : Seed) (email : JsString) : Option SeedUser :=
  seed.users.reverse.find? fun u => decide (toLowerCase u.email = toLowerCase (trim email))

def findUserById (seed : Seed) (id : JsString) : Option SeedUser :=
  seed.users.reverse.find? fun u => decide (u.id = id)

def findClient (seed : Seed) (clientId : JsString) : Option SeedClient :=
  seed.clients.reverse.find? fun c => decide (c.clientId = clientId)

def entitlementsFor (seed : Seed) (user : SeedUser) : List JsString :=
  alwaysGranted ++ (seed.scopeSets.lookup user.role.text).getD []

def namespacesFor (seed : Seed) (audience : JsString) : Namespaces :=
  match seed.audienceNamespaces.lookup audience with
  | some names => .array names
  | none =>
    match objectPrototype.lookup audience with
    | some length => .inherited length
    | none => .array []

def Knows (seed : Seed) (audience : JsString) : Prop :=
  (seed.audienceNamespaces.lookup audience).isSome = true

theorem findUserById_id {seed : Seed} {id : JsString} {user : SeedUser}
    (h : seed.findUserById id = some user) : user.id = id := by
  have hfound := List.find?_some h
  exact of_decide_eq_true hfound

theorem findClient_clientId {seed : Seed} {clientId : JsString} {client : SeedClient}
    (h : seed.findClient clientId = some client) : client.clientId = clientId := by
  have hfound := List.find?_some h
  exact of_decide_eq_true hfound

end Seed

end McpGateway.Idp
