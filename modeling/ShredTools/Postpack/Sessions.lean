import Mathlib.Data.Finset.Insert
import ShredTools.Audit.Config
import ShredTools.Library.Bytes
import ShredTools.Library.KeyedTable
import ShredTools.Library.Run

/-!
# Sessions of a relay

A Gravity relay authenticates in two calls: it gets a challenge, signs it and gets a token, which
its subscriptions then carry.  The server answers many calls at a time, and each of them takes the
locks for a moment only.

`Server.step` makes one step of one call, and `Server.Effect` says what a step can do.

A call is a `Task` that goes from one state to the next: a challenge is drawn and then issued; a
request for tokens is checked, and then its tokens are drawn one after the other.  The nonce that
makes texts differ is shared by all calls.  What the outside hears of a step is an `Output`, and
what is proved about the relay is proved about the outputs of a run.  `Server.step_effect` is the
only place where `Server.step` is taken apart.
-/

namespace ShredTools.Postpack.Gravity

open Audit (Pubkey stripPrefix)

/-! ### The calls -/

/-- The codes of a `Status`. -/
inductive StatusCode
  | unauthenticated
  | permissionDenied
  | invalidArgument
  | resourceExhausted
  deriving DecidableEq

/-- `Status` -/
structure Status where
  /-- The code. -/
  code : StatusCode
  /-- The message. -/
  message : String
  deriving DecidableEq

/-- `GenerateAuthTokensRequest` -/
structure TokensRequest where
  /-- The challenge with the key before it. -/
  challenge : String
  /-- The key. -/
  clientPubkey : List UInt8
  /-- The signature. -/
  signedChallenge : List UInt8
  deriving DecidableEq

/-- What the Solana library does with keys and signatures. -/
structure SignatureCode where
  /-- A key as a text. -/
  display : Pubkey → String
  /-- `Signature::verify` -/
  verify : Vector UInt8 64 → Pubkey → ByteArray → Bool

/-- `Sessions` -/
structure Sessions where
  /-- The next nonce. -/
  nonce : ℕ
  /-- Outstanding challenge per pubkey. -/
  challenges : AList fun _ : Pubkey => String
  /-- The access tokens. -/
  tokens : Finset String

/-- `Sessions::default` -/
def Sessions.default : Sessions := ⟨0, ∅, ∅⟩

/-- A slice as an array of a length, if it has it. -/
def toArray? (n : ℕ) (bytes : List UInt8) : Option (Vector UInt8 n) :=
  if h : bytes.length = n then some ⟨bytes.toArray, h⟩ else none

namespace Sessions

/-- `fresh`, at so many nanoseconds of the clock. -/
def fresh (nanos : ℕ) (s : Sessions) : String × Sessions :=
  (hexText nanos ++ hexText s.nonce, { s with nonce := (s.nonce + 1) % 2 ^ 64 })

@[simp] lemma fresh_challenges (nanos : ℕ) (s : Sessions) :
    (s.fresh nanos).2.challenges = s.challenges := rfl

@[simp] lemma fresh_tokens (nanos : ℕ) (s : Sessions) : (s.fresh nanos).2.tokens = s.tokens := rfl

/-- `authorize`, for the text of the header `authorization`. -/
def authorize (authorization : Option String) (s : Sessions) : Except Status Unit :=
  match authorization.bind (stripPrefix "Bearer ") with
  | none => .error ⟨.unauthenticated, "missing bearer token"⟩
  | some token =>
    if token ∈ s.tokens then .ok () else .error ⟨.unauthenticated, "unknown access token"⟩

end Sessions

section Calls

variable (code : SignatureCode)

/-- What clients sign. -/
def toSign (pubkey : Pubkey) (challenge : String) : String :=
  code.display pubkey ++ "-" ++ challenge

/-- The checks of `generate_auth_tokens`, for the challenge that was outstanding. -/
def checkTokens (pubkey : Pubkey) (request : TokensRequest) (issued : Option String) :
    Except Status Unit :=
  match issued with
  | none => .error ⟨.permissionDenied, "no outstanding challenge"⟩
  | some issued =>
    if request.challenge ≠ toSign code pubkey issued then
      .error ⟨.permissionDenied, "challenge mismatch"⟩
    else
      match toArray? 64 request.signedChallenge with
      | none => .error ⟨.invalidArgument, "malformed signed_challenge"⟩
      | some signature =>
        if code.verify signature pubkey request.challenge.toUTF8 then .ok ()
        else .error ⟨.permissionDenied, "bad signature"⟩

/-- How far a call is. -/
inductive Task
  /-- `generate_auth_challenge`, before it draws a challenge. -/
  | challenge (pubkey : Pubkey)
  /-- `generate_auth_challenge`, before it stores the challenge and answers. -/
  | challengeDrawn (pubkey : Pubkey) (challenge : String)
  /-- `generate_auth_tokens`, before it takes the outstanding challenge and checks. -/
  | tokens (pubkey : Pubkey) (request : TokensRequest)
  /-- `generate_auth_tokens`, before it draws the access token. -/
  | checked (pubkey : Pubkey) (request : TokensRequest)
  /-- `generate_auth_tokens`, before it stores the access token. -/
  | accessDrawn (pubkey : Pubkey) (request : TokensRequest) (access : String)
  /-- `generate_auth_tokens`, before it draws the refresh token and answers. -/
  | granted (access : String)
  deriving DecidableEq

/-- What is heard of the calls. -/
inductive Output
  /-- The call is refused before it does anything. -/
  | refused (status : Status)
  /-- A challenge is stored, and answered. -/
  | issued (pubkey : Pubkey) (challenge : String)
  /-- A request for tokens is checked; if it fails, this is the answer. -/
  | checked (pubkey : Pubkey) (request : TokensRequest) (answer : Except Status Unit)
  /-- An access token is stored. -/
  | granted (pubkey : Pubkey) (request : TokensRequest) (access : String)
  /-- The answer with the tokens. -/
  | tokens (access refresh : String)
  /-- A subscription is asked for with this header. -/
  | authorized (authorization : Option String) (answer : Except Status Unit)

/-- The server with the calls that are on their way. -/
structure Server where
  /-- The sessions. -/
  sessions : Sessions
  /-- The calls. -/
  tasks : AList fun _ : ℕ => Task

/-- What happens at the server. -/
inductive Event
  /-- A call of `generate_auth_challenge` comes. -/
  | generateAuthChallenge (task : ℕ) (pubkey : List UInt8)
  /-- A call of `generate_auth_tokens` comes. -/
  | generateAuthTokens (task : ℕ) (request : TokensRequest)
  /-- A subscription is asked for. -/
  | subscribe (authorization : Option String)
  /-- A call makes its next step, at so many nanoseconds of the clock. -/
  | run (task nanos : ℕ)

/-- A call comes, under a name that no other call has. -/
def Server.arrive (task : ℕ) (start : Except Status Task) (s : Server) : Server × List Output :=
  if task ∈ s.tasks then (s, [])
  else
    match start with
    | .error status => (s, [.refused status])
    | .ok start => ({ s with tasks := s.tasks.insert task start }, [])

/-- A call makes its next step. -/
def Server.advance (task nanos : ℕ) (s : Server) : Task → Server × List Output
  | .challenge pubkey =>
    let drawn := s.sessions.fresh nanos
    (⟨drawn.2, s.tasks.insert task (.challengeDrawn pubkey drawn.1)⟩, [])
  | .challengeDrawn pubkey challenge =>
    let challenges := s.sessions.challenges.insert pubkey challenge
    (⟨{ s.sessions with challenges := challenges }, s.tasks.erase task⟩,
      [.issued pubkey challenge])
  | .tokens pubkey request =>
    let answer := checkTokens code pubkey request (s.sessions.challenges.lookup pubkey)
    let tasks :=
      match answer with
      | .error _ => s.tasks.erase task
      | .ok () => s.tasks.insert task (.checked pubkey request)
    (⟨{ s.sessions with challenges := s.sessions.challenges.erase pubkey }, tasks⟩,
      [.checked pubkey request answer])
  | .checked pubkey request =>
    let drawn := s.sessions.fresh nanos
    (⟨drawn.2, s.tasks.insert task (.accessDrawn pubkey request drawn.1)⟩, [])
  | .accessDrawn pubkey request access =>
    (⟨{ s.sessions with tokens := insert access s.sessions.tokens },
        s.tasks.insert task (.granted access)⟩,
      [.granted pubkey request access])
  | .granted access =>
    let drawn := s.sessions.fresh nanos
    (⟨drawn.2, s.tasks.erase task⟩, [.tokens access drawn.1])

/-- One event. -/
def Server.step (s : Server) : Event → Server × List Output
  | .generateAuthChallenge task pubkey =>
    s.arrive task <|
      match toArray? 32 pubkey with
      | none => .error ⟨.invalidArgument, "invalid pubkey"⟩
      | some pubkey => .ok (.challenge pubkey)
  | .generateAuthTokens task request =>
    s.arrive task <|
      match toArray? 32 request.clientPubkey with
      | none => .error ⟨.invalidArgument, "invalid client_pubkey"⟩
      | some pubkey => .ok (.tokens pubkey request)
  | .subscribe authorization =>
    (s, [.authorized authorization (s.sessions.authorize authorization)])
  | .run task nanos =>
    match s.tasks.lookup task with
    | none => (s, [])
    | some t => s.advance code task nanos t

/-- The server as it starts. -/
def Server.start : Server := ⟨Sessions.default, ∅⟩

end Calls

/-! ### Steps -/

section Steps

variable (code : SignatureCode)

/-- The calls as they come. -/
def Task.IsFirst : Task → Prop
  | .challenge _ | .tokens _ _ => True
  | _ => False

/-- What an event can do, with what is heard of it. -/
inductive Server.Effect (s : Server) (event : Event) : Server × List Output → Prop
  /-- Nothing. -/
  | idle : Effect s event (s, [])
  /-- A call is refused. -/
  | refused (status : Status) : Effect s event (s, [.refused status])
  /-- A call comes. -/
  | arrived (task : ℕ) (t : Task) (first : t.IsFirst) (free : s.tasks.lookup task = none) :
    Effect s event ({ s with tasks := s.tasks.insert task t }, [])
  /-- A subscription is asked for. -/
  | authorized (authorization : Option String) :
    Effect s event (s, [.authorized authorization (s.sessions.authorize authorization)])
  /-- A call makes a step. -/
  | advanced (task nanos : ℕ) (t : Task) (run : event = .run task nanos)
    (here : s.tasks.lookup task = some t) : Effect s event (s.advance code task nanos t)

/-- A call comes, or it is refused. -/
lemma Server.arrive_effect (s : Server) (event : Event) (task : ℕ) {start : Except Status Task}
    (hfirst : ∀ t, start = .ok t → t.IsFirst) : s.Effect code event (s.arrive task start) := by
  unfold Server.arrive
  by_cases hknown : task ∈ s.tasks
  · rw [if_pos hknown]
    exact .idle
  · rw [if_neg hknown]
    cases start with
    | error status => exact .refused status
    | ok t => exact .arrived task t (hfirst t rfl) (AList.lookup_eq_none.mpr hknown)

/-- An event does one of these. -/
theorem Server.step_effect (s : Server) (event : Event) :
    s.Effect code event (s.step code event) := by
  cases event with
  | generateAuthChallenge task pubkey =>
    refine s.arrive_effect code _ task fun t ht => ?_
    cases hpubkey : toArray? 32 pubkey with
    | none =>
      rw [hpubkey] at ht
      cases ht
    | some pubkey =>
      rw [hpubkey] at ht
      cases ht
      trivial
  | generateAuthTokens task request =>
    refine s.arrive_effect code _ task fun t ht => ?_
    cases hpubkey : toArray? 32 request.clientPubkey with
    | none =>
      rw [hpubkey] at ht
      cases ht
    | some pubkey =>
      rw [hpubkey] at ht
      cases ht
      trivial
  | subscribe authorization => exact .authorized authorization
  | run task nanos =>
    unfold Server.step
    dsimp only
    cases hlookup : s.tasks.lookup task with
    | none => exact .idle
    | some t => exact .advanced task nanos t rfl hlookup

/-- What the calls on their way have, after one of them went on. -/
theorem total_insert_of_lookup {tasks : AList fun _ : ℕ => Task} {task : ℕ} {t : Task}
    (h : tasks.lookup task = some t) (f : Task → ℕ) (t' : Task) :
    (tasks.insert task t').total (fun _ => f) + f t = tasks.total (fun _ => f) + f t' := by
  have := AList.total_insert_add (fun _ => f) tasks task t'
  rwa [h] at this

/-- What they have after one of them is answered. -/
theorem total_erase_of_lookup {tasks : AList fun _ : ℕ => Task} {task : ℕ} {t : Task}
    (h : tasks.lookup task = some t) (f : Task → ℕ) :
    (tasks.erase task).total (fun _ => f) + f t = tasks.total fun _ => f := by
  have := AList.total_erase_add (fun _ => f) tasks task
  rwa [h] at this

/-- What they have after a new one came, if those have nothing. -/
theorem total_insert_of_first {tasks : AList fun _ : ℕ => Task} {task : ℕ} {t : Task}
    (free : tasks.lookup task = none) (first : t.IsFirst) {f : Task → ℕ}
    (hchallenge : ∀ pubkey, f (.challenge pubkey) = 0)
    (htokens : ∀ pubkey request, f (.tokens pubkey request) = 0) :
    (tasks.insert task t).total (fun _ => f) = tasks.total fun _ => f := by
  have htotal := AList.total_insert_add (fun _ => f) tasks task t
  have hnone : f t = 0 := by
    cases t <;> first | exact hchallenge _ | exact htokens _ _ | exact first.elim
  rwa [free, hnone] at htotal

end Steps

end ShredTools.Postpack.Gravity
