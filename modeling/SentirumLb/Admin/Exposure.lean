import SentirumLb.Admin.Trust
import SentirumLb.Config.Validation
import SentirumLb.Net.AddrText

/-! # Who reaches the admin API

The server refuses to start without credentials unless it listens on a loopback
address. The routes that need no login are the pages of the dashboard and the
handlers of the login itself; all others are behind the middleware as soon as
there are credentials.
-/

namespace SentirumLb.Admin

/-! ## Loopback addresses -/

inductive Method where
  | get
  | head
  | post
  | put
  | delete
  | other (name : String)
deriving DecidableEq

/-- A handler of GET requests answers HEAD requests as well. -/
def Method.reaches (method registered : Method) : Bool :=
  method == registered || (method == .head && registered == .get)

def publicRoutes : List (Method × String) :=
  [(.get, "/admin"), (.get, "/admin/"), (.get, "/admin/dashboard"),
    (.get, "/admin/assets/dashboard.css"), (.get, "/admin/assets/dashboard.js"),
    (.get, "/favicon.ico"), (.post, "/admin/login"), (.post, "/admin/logout"),
    (.get, "/admin/me"), (.get, "/admin/health")]

def protectedRoutes : List (Method × String) :=
  [(.get, "/admin/routes"), (.post, "/admin/routes"), (.delete, "/admin/routes/static"),
    (.get, "/admin/metrics"), (.get, "/admin/config"), (.put, "/admin/config"),
    (.post, "/admin/config/reset"), (.get, "/admin/certs"), (.post, "/admin/certs/reload"),
    (.get, "/admin/logs"), (.get, "/admin/targets"), (.get, "/admin/consul-status"),
    (.get, "/admin/topology"), (.get, "/admin/targets-metrics"), (.get, "/admin/dns-cache"),
    (.get, "/admin/logs/stream"), (.get, "/admin/metrics/stream")]

structure AdminRouter where
  guarded : Bool
deriving DecidableEq

inductive Served where
  | handled
  | unauthorized
  | methodNotAllowed
  | notFound
deriving DecidableEq

def routed (routes : List (Method × String)) (method : Method) (path : String) : Bool :=
  routes.any fun r => r.2 == path && method.reaches r.1

def AdminRouter.serve (router : AdminRouter) (method : Method) (path : String) (accepted : Bool) :
    Served :=
  if publicRoutes.any (·.2 == path) then
    if routed publicRoutes method path then .handled else .methodNotAllowed
  else if protectedRoutes.any (·.2 == path) then
    if router.guarded && !accepted then .unauthorized
    else if routed protectedRoutes method path then .handled
    else .methodNotAllowed
  else .notFound

section Requests

variable [Bcrypt]

end Requests

section Example

attribute [local instance] noBcrypt

end Example

end SentirumLb.Admin
