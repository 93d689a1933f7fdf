import Saffui.Clients
import Saffui.Directory

/-!
# Sessions, and when they answer for their person

Source: `saffui-core/src/login/session.rs`, its data and what is told from a
session read.
-/

namespace Saffui.Login

inductive SessionState where
  | active
  | ended
  deriving DecidableEq, Repr

/-- What proved who a person is. -/
inductive AuthenticationMethod where
  | password
  | oneTimeCode
  | securityKey
  deriving DecidableEq, Repr

structure Session where
  id : Uuid
  person : Uuid
  secretDigest : Bytes
  state : SessionState
  /-- What the person proved themselves with, in the order they did. -/
  methods : List AuthenticationMethod
  authenticatedAt : Instant
  expiresAt : Instant
  deriving DecidableEq, Repr

/-- A session as it is read, with what its person holds at that instant. -/
structure ReadSession where
  session : Session
  personHoldsFactor : Bool
  deriving DecidableEq, Repr

/-- How long a session lasts, whatever is done with it: 12 hours. -/
def SESSION_LIFETIME : Instant := 12 * 60 * 60 * 1000000

/-- Whether a session was opened with a second factor. -/
def provesSecondFactor (session : Session) : Bool :=
  session.methods.any fun method => method ≠ .password

/-- Whether a session still answers for its person. One the password alone
opened stops once the person holds a second factor. -/
def answersForItsPerson (read : ReadSession) : Bool :=
  provesSecondFactor read.session || !read.personHoldsFactor

/-- Whether a session read stands at an instant: active, not expired, and
answering for its person. -/
def stands (read : ReadSession) (now : Instant) : Bool :=
  read.session.state = .active && read.session.expiresAt > now && answersForItsPerson read

end Saffui.Login
