import SigV4.Proofs.ProviderTrees

/-!
# What credentials providers show

A tree of providers has secrets in its leaves and takes them from the environment. Nothing that it shows
depends on them, neither what it logs nor how it is named nor why it failed:

* **`Credentials.redacted`**, **`Environment.redacted`**, **`Provider.redacted`**: the same with a mask in
  place of each secret and the text of each token. Two trees that have the same redaction differ in these
  only.
* **`Provider.resolve_redacted`**: redaction commutes with asking, by induction on the tree. So what a tree
  shows is what its redaction shows.
* **`Provider.secrets_stay_hidden`**: two runs of two trees.
-/

namespace SigV4

/-- Stands for every secret. -/
def mask : Bytes := ascii "<redacted>"

namespace Credentials

/-- The credentials with masks for the secret and the token. -/
def redacted (c : Credentials) : Credentials :=
  { c with secretAccessKey := mask, sessionToken := c.sessionToken.map fun _ => mask }

/-- The description mentions no secret, and of the token only whether there is one. -/
theorem describe_redacted (c : Credentials) : c.redacted.describe = c.describe := by
  rw [describe, describe, redacted, Option.isSome_map]

end Credentials

namespace Environment

/-- The environment with masks for the secret and the token. An empty variable counts as missing. -/
def redacted (env : Environment) : Environment :=
  { env with
    secretAccessKey := (nonempty env.secretAccessKey).map fun _ => mask
    sessionToken := (nonempty env.sessionToken).map fun _ => mask }

/-- A mask is not empty, so a masked variable counts. -/
theorem nonempty_mask (value : Option Bytes) :
    nonempty (value.map fun _ => mask) = value.map fun _ => mask := by
  cases value with
  | none => rfl
  | some text => rfl

/-- A required variable with a mask is missing exactly if it was missing before. -/
theorem required_mask (name : Bytes) (value : Option Bytes) :
    required name ((nonempty value).map fun _ => mask) = (required name value).map fun _ => mask := by
  unfold required
  rw [nonempty_mask]
  cases nonempty value with
  | none => rfl
  | some text => rfl

/-- The environment fails for the same reason, or has the same credentials but for the secrets. The
variables are asked in order, and a mask changes neither which is missing nor whether the expiration can be
read. -/
theorem credentials_redacted (env : Environment) :
    env.redacted.credentials = env.credentials.map Credentials.redacted := by
  unfold credentials
  show (required _ env.accessKeyId >>= fun accessKeyId =>
    required _ ((nonempty env.secretAccessKey).map fun _ => mask) >>= fun secretAccessKey => _) = _
  rw [required_mask]
  simp only [redacted, nonempty_mask]
  cases required (ascii "AWS_ACCESS_KEY_ID") env.accessKeyId with
  | error failure => rfl
  | ok accessKeyId =>
    cases required (ascii "AWS_SECRET_ACCESS_KEY") env.secretAccessKey with
    | error failure => rfl
    | ok secret =>
      cases (nonempty env.expiration).mapM parseExpiration with
      | error failure => rfl
      | ok expiration => rfl

end Environment

namespace Provider

variable {κ κ' : Type}

/-- The tree with masks for all secrets, where `redact` masks those of the caller's providers. -/
def redacted (redact : κ → κ') (p : Provider κ) : Provider κ' := p.map Credentials.redacted redact

/-- All members with masks. -/
def redactedMembers (redact : κ → κ') : List (Provider κ) → List (Provider κ') :=
  mapMembers Credentials.redacted redact

mutual

/-- The providers of a masked tree are those of the tree, with masks. The induction is on the tree. -/
theorem nodes_redacted (redact : κ → κ') : (p : Provider κ) →
    (p.redacted redact).nodes = p.nodes.map (redacted redact)
  | fixed _ => rfl
  | environment => rfl
  | custom _ => rfl
  | chain members _ => congrArg (List.cons _) (nodesOf_redactedMembers redact members)

/-- So are those of the members of a chain. -/
theorem nodesOf_redactedMembers (redact : κ → κ') : (members : List (Provider κ)) →
    nodesOf (redactedMembers redact members) = (nodesOf members).map (redacted redact)
  | [] => rfl
  | member :: members => by
    rw [nodesOf, List.map_append, ← nodes_redacted redact member,
      ← nodesOf_redactedMembers redact members]
    rfl

end

variable [CredentialsSource κ] [CredentialsSource κ']

/-- Masking the secrets of a provider of the caller changes neither its name nor when and why it fails,
and its credentials by the masks only. -/
structure Hides (redact : κ → κ') : Prop where
  name : ∀ source, CredentialsSource.name (redact source) = CredentialsSource.name source
  resolve : ∀ source, CredentialsSource.resolve (redact source)
    = ((CredentialsSource.resolve source).1.map Credentials.redacted,
      redact (CredentialsSource.resolve source).2)

variable {redact : κ → κ'}

mutual

/-- A name mentions no secret. That of a chain is made of those of its members. -/
theorem name_redacted (h : Hides redact) : (p : Provider κ) → (p.redacted redact).name = p.name
  | fixed _ => rfl
  | environment => rfl
  | custom source => h.name source
  | chain members _ => congrArg (ascii "Chain" ++ ·) (memberNames_redacted h members)

theorem memberNames_redacted (h : Hides redact) : (members : List (Provider κ)) →
    memberNames (redactedMembers redact members) = memberNames members
  | [] => rfl
  | member :: members => by
    rw [memberNames, ← name_redacted h member, ← memberNames_redacted h members]
    rfl

end

mutual

/-- **Redaction commutes with asking.** The redaction of a tree fails for the same reason or has the
redaction of its credentials, logs the same, and becomes the redaction of what the tree becomes. -/
theorem resolve_redacted (h : Hides redact) (env : Environment) : (p : Provider κ) →
    (p.redacted redact).resolve env.redacted
      = ((p.outcome env).map Credentials.redacted, (p.asked env).redacted redact, p.text env)
  | fixed credentials => rfl
  | environment => congrArg (·, environment, []) env.credentials_redacted
  | custom source => by
    show ((CredentialsSource.resolve (redact source)).1,
      custom (CredentialsSource.resolve (redact source)).2, []) = _
    rw [h.resolve]
    rfl
  | chain members log => by
    have hmembers := resolveFirst_redacted h env log members
    show (chain (redactedMembers redact members) log).resolve env.redacted = _
    unfold outcome asked text
    rw [resolve_chain, resolve_chain, hmembers]
    rcases resolveFirst env log members with ⟨result, next, text⟩
    cases result with
    | ok credentials => rfl
    | error failures =>
      have hname : (chain (redactedMembers redact next) log).name = (chain next log).name :=
        name_redacted h (chain next log)
      -- The failure mentions the name of the chain.
      exact congrArg (fun name => (Except.error (Failure.credentialsUnavailable (.chainExhausted name)
        (failures.any Failure.retryable) failures), chain (redactedMembers redact next) log, text)) hname

/-- **Redaction commutes with asking members in order.** The same members are asked, since a member succeeds
exactly if its redaction does. -/
theorem resolveFirst_redacted (h : Hides redact) (env : Environment) (log : Bool) :
    (members : List (Provider κ)) →
    resolveFirst env.redacted log (redactedMembers redact members)
      = ((resolveFirst env log members).1.map Credentials.redacted,
        redactedMembers redact (resolveFirst env log members).2.1, (resolveFirst env log members).2.2)
  | [] => rfl
  | member :: members => by
    have hmember := resolve_redacted h env member
    have hmembers := resolveFirst_redacted h env log members
    show resolveFirst env.redacted log (member.redacted redact :: redactedMembers redact members) = _
    rw [resolveFirst_cons, resolveFirst_cons, outcome, asked, text, hmember]
    dsimp only
    rw [name_redacted h]
    cases member.outcome env with
    | ok credentials => rfl
    | error failure =>
      rw [hmembers]
      rcases resolveFirst env log members with ⟨result, next, text⟩
      cases result with
      | ok credentials => rfl
      | error failures => rfl

end

/-! ## Runs -/

/-- What a provider answers and logs when it is asked in these environments one after the other. -/
def answers : List Environment → Provider κ → List (Outcome Credentials × Bytes)
  | [], _ => []
  | env :: envs, p => (p.outcome env, p.text env) :: answers envs (p.asked env)

/-- What can be seen of an answer: why it failed, with all causes, or the description of its credentials,
and the log. -/
def shown (answer : Outcome Credentials × Bytes) : Outcome Bytes × Bytes :=
  (answer.1.map Credentials.describe, answer.2)

/-- What is shown of an answer is not changed by masks. -/
theorem shown_redacted (outcome : Outcome Credentials) (text : Bytes) :
    shown (outcome.map Credentials.redacted, text) = shown (outcome, text) := by
  cases outcome with
  | error failure => rfl
  | ok credentials => exact congrArg (fun described => (Except.ok described, text)) credentials.describe_redacted

/-- Redaction commutes with asking any number of times. The induction is on the environments. -/
theorem askedIn_redacted (h : Hides redact) (envs : List Environment) (p : Provider κ) :
    (p.redacted redact).askedIn (envs.map Environment.redacted) = (p.askedIn envs).redacted redact := by
  induction envs generalizing p with
  | nil => rfl
  | cons env envs ih =>
    show askedIn _ ((p.redacted redact).asked env.redacted) = _
    rw [asked, resolve_redacted h]
    exact ih (p.asked env)

/-- A run of the redaction shows the same, answer by answer. -/
theorem answers_redacted (h : Hides redact) (envs : List Environment) (p : Provider κ) :
    ((p.redacted redact).answers (envs.map Environment.redacted)).map shown
      = (p.answers envs).map shown := by
  induction envs generalizing p with
  | nil => rfl
  | cons env envs ih =>
    rw [List.map_cons, answers, answers, List.map_cons, List.map_cons, outcome, text, asked,
      resolve_redacted h, shown_redacted, ih]

/-- All names in a tree are those in its redaction. -/
theorem names_redacted (h : Hides redact) (p : Provider κ) :
    (p.redacted redact).nodes.map name = p.nodes.map name := by
  rw [nodes_redacted, List.map_map]
  exact List.map_congr_left fun node _ => name_redacted h node

/-- **Secrets stay hidden.** Of two trees that differ only in secrets and the text of tokens, each of them
asked any number of times in environments that differ only so, the same is shown: what is logged, why
credentials are missing, and the descriptions of those that are found. All providers in the trees keep the
same names, and the trees still differ only so. -/
theorem secrets_stay_hidden (h : Hides redact) {p q : Provider κ}
    (htrees : p.redacted redact = q.redacted redact) {envs others : List Environment}
    (henvs : envs.map Environment.redacted = others.map Environment.redacted) :
    (p.answers envs).map shown = (q.answers others).map shown
      ∧ (p.askedIn envs).nodes.map name = (q.askedIn others).nodes.map name
      ∧ (p.askedIn envs).redacted redact = (q.askedIn others).redacted redact := by
  have hnext : (p.askedIn envs).redacted redact = (q.askedIn others).redacted redact := by
    rw [← askedIn_redacted h, ← askedIn_redacted h, htrees, henvs]
  refine ⟨?_, ?_, hnext⟩
  · rw [← answers_redacted h, ← answers_redacted h, htrees, henvs]
  · rw [← names_redacted h, ← names_redacted h (q.askedIn others), hnext]

/-- Fails once, and then has these credentials. The environment comes first. -/
def hiddenTree (secret token : Bytes) : Provider Unsteady :=
  let credentials : Credentials :=
    { accessKeyId := ascii "AKID", secretAccessKey := secret, sessionToken := some token }
  .chain [.environment,
    .chain [.custom { failures := [.reported (ascii "down")], credentials }, .fixed credentials] true] true

/-- A source that fails some times and then has credentials hides their secrets: they have no say in when it
fails. -/
theorem hides_unsteady :
    Hides fun source : Unsteady => { source with credentials := source.credentials.redacted } where
  name _ := rfl
  resolve source := by
    rcases source with ⟨failures, credentials, count⟩
    cases failures with
    | nil => rfl
    | cons failure failures => rfl

/-- Two trees with other secrets and tokens of other lengths, asked twice; the environment has a secret the
second time. -/
theorem secrets_stay_hidden_in_chain :
    let redact (source : Unsteady) : Unsteady :=
      { source with credentials := source.credentials.redacted }
    let p := hiddenTree (ascii "secret") (ascii "token")
    let q := hiddenTree (ascii "other") (ascii "longer token")
    let envs : List Environment := [{}, { secretAccessKey := some (ascii "secret") }]
    let others : List Environment := [{}, { secretAccessKey := some (ascii "s") }]
    Hides redact ∧ p.redacted redact = q.redacted redact
      ∧ envs.map Environment.redacted = others.map Environment.redacted
      ∧ (p.answers envs).map shown = (q.answers others).map shown
      ∧ (p.askedIn envs).nodes.map name = (q.askedIn others).nodes.map name
      ∧ (p.askedIn envs).redacted redact = (q.askedIn others).redacted redact :=
  ⟨hides_unsteady, rfl, rfl, secrets_stay_hidden hides_unsteady rfl rfl⟩

end Provider

end SigV4
