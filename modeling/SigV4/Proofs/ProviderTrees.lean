import SigV4.Provider

/-!
# Asking a tree of credentials providers

Chains may have chains as members. However deep they stand, asking a tree comes to asking its leaves
from left to right until one succeeds:

* **`FirstOf`**, **`Exhausted`**: the two ways in which that ends for a list of leaves. Either leaf was
  asked as often as its next state says, and a source may count how often that was (`Unsteady`).
* **`falls_resolve`**: the tree, by induction on it together with the members of its chains.
* **`map`**: the tree with other leaves. Asking changes the states of the leaves and nothing else
  (`shape_asked`).
-/

namespace SigV4

namespace Provider

variable {κ κ' : Type}

/-! ## Trees and their leaves

Chains may stand in chains. For what is found only the leaves count, from left to right. -/

mutual

/-- The providers in a tree that are no chains, from left to right. -/
def leaves : Provider κ → List (Provider κ)
  | fixed credentials => [fixed credentials]
  | environment => [environment]
  | custom source => [custom source]
  | chain members _ => leavesOf members

def leavesOf : List (Provider κ) → List (Provider κ)
  | [] => []
  | member :: members => member.leaves ++ leavesOf members

end

mutual

/-- All providers in a tree, chains before their members. -/
def nodes : Provider κ → List (Provider κ)
  | fixed credentials => [fixed credentials]
  | environment => [environment]
  | custom source => [custom source]
  | chain members log => chain members log :: nodesOf members

def nodesOf : List (Provider κ) → List (Provider κ)
  | [] => []
  | member :: members => member.nodes ++ nodesOf members

end

mutual

/-- The tree with other leaves in the same places. -/
def map (held : Credentials → Credentials) (source : κ → κ') : Provider κ → Provider κ'
  | fixed credentials => fixed (held credentials)
  | environment => environment
  | custom leaf => custom (source leaf)
  | chain members log => chain (mapMembers held source members) log

def mapMembers (held : Credentials → Credentials) (source : κ → κ') :
    List (Provider κ) → List (Provider κ')
  | [] => []
  | member :: members => member.map held source :: mapMembers held source members

end

/-- The tree but for the states of the caller's providers. -/
def shape (p : Provider κ) : Provider Unit := p.map id fun _ => ()

mutual

/-- The failures of the leaves in a failure of the tree, from left to right. The causes that a leaf
gives for its own failure are not taken apart. -/
def causes : Provider κ → Failure → List Failure
  | chain members _, .credentialsUnavailable _ _ suppressed => causesOf members suppressed
  | _, failure => [failure]

def causesOf : List (Provider κ) → List Failure → List Failure
  | member :: members, failure :: failures => member.causes failure ++ causesOf members failures
  | _, _ => []

end

variable [CredentialsSource κ] {env : Environment} {credentials : Credentials}
  {ls ls' more more' : List (Provider κ)} {failures others : List Failure}

/-- What the provider answers now. -/
def outcome (env : Environment) (p : Provider κ) : Outcome Credentials := (p.resolve env).1

/-- The provider after it was asked. -/
def asked (env : Environment) (p : Provider κ) : Provider κ := (p.resolve env).2.1

/-- What is logged while the provider is asked. -/
def text (env : Environment) (p : Provider κ) : Bytes := (p.resolve env).2.2

/-- A chain asks its members in order and makes one failure of all of theirs. The next state of each member
is kept, whatever the outcome. -/
theorem resolve_chain (env : Environment) (members : List (Provider κ)) (log : Bool) :
    (chain members log).resolve env
      = let (result, members, text) := resolveFirst env log members
        (result.mapError fun failures =>
          .credentialsUnavailable (.chainExhausted (chain members log).name)
            (failures.any Failure.retryable) failures, chain members log, text) := by
  rw [resolve]
  rcases resolveFirst env log members with ⟨result, members, text⟩
  cases result with
  | ok credentials => rfl
  | error failures => rfl

/-- Asking the first member of a chain, and the others only if it fails. What is logged stands in the order
of asking. -/
theorem resolveFirst_cons (env : Environment) (log : Bool) (member : Provider κ)
    (members : List (Provider κ)) :
    resolveFirst env log (member :: members)
      = match member.outcome env with
        | .ok credentials => (.ok credentials, member.asked env :: members,
          member.text env ++ if log then loadedNote (member.asked env).name else [])
        | .error failure =>
          let (result, members, text) := resolveFirst env log members
          (result.mapError (failure :: ·), member.asked env :: members,
            member.text env ++ (if log then failedNote (member.asked env).name failure else [])
              ++ text) := by
  unfold outcome asked text
  rw [resolveFirst]
  rcases resolve env member with ⟨result, next, text⟩
  cases result with
  | ok credentials => rfl
  | error failure =>
    rcases resolveFirst env log members with ⟨rest, members, more⟩
    cases rest with
    | ok credentials => rfl
    | error failures => rfl

/-! ## Asking leaves in order

The first leaf that succeeds ends the search, and the failures before it are collected. -/

/-- The first of the leaves that succeeds has these credentials. It was asked once and so were those
before it, which failed; those behind it were not asked. -/
def FirstOf (env : Environment) (ls ls' : List (Provider κ)) (credentials : Credentials) : Prop :=
  ∃ before leaf after, ls = before ++ leaf :: after
    ∧ (∀ other ∈ before, ∃ failure, other.outcome env = .error failure)
    ∧ leaf.outcome env = .ok credentials
    ∧ ls' = (before ++ [leaf]).map (asked env) ++ after

/-- All of the leaves were asked once and failed, and these are their failures in order. -/
structure Exhausted (env : Environment) (ls ls' : List (Provider κ)) (failures : List Failure) :
    Prop where
  outcomes : ls.map (outcome env) = failures.map .error
  next : ls' = ls.map (asked env)

/-- Leaves behind one that succeeds are not asked. -/
theorem FirstOf.append (h : FirstOf env ls ls' credentials) (more : List (Provider κ)) :
    FirstOf env (ls ++ more) (ls' ++ more) credentials := by
  obtain ⟨before, leaf, after, rfl, hbefore, hleaf, rfl⟩ := h
  exact ⟨before, leaf, after ++ more, by simp, hbefore, hleaf, by simp⟩

/-- Leaves that all fail, and behind them more that all fail. -/
theorem Exhausted.append (h : Exhausted env ls ls' failures) (hmore : Exhausted env more more' others) :
    Exhausted env (ls ++ more) (ls' ++ more') (failures ++ others) := by
  constructor
  · rw [List.map_append, List.map_append, h.outcomes, hmore.outcomes]
  · rw [h.next, hmore.next, List.map_append]

/-- The failures are those that some leaf answers with. -/
theorem Exhausted.mem_iff (h : Exhausted env ls ls' failures) {failure : Failure} :
    failure ∈ failures ↔ ∃ leaf ∈ ls, leaf.outcome env = .error failure := by
  have hmem : (.error failure : Outcome Credentials) ∈ failures.map .error ↔ failure ∈ failures := by
    simp
  rw [← hmem, ← h.outcomes, List.mem_map]

/-- Leaves that all fail, and behind them some of which one succeeds: it is still the first. -/
theorem Exhausted.firstOf (h : Exhausted env ls ls' failures)
    (hmore : FirstOf env more more' credentials) :
    FirstOf env (ls ++ more) (ls' ++ more') credentials := by
  obtain ⟨before, leaf, after, rfl, hbefore, hleaf, rfl⟩ := hmore
  refine ⟨ls ++ before, leaf, after, by simp, fun other hother => ?_, hleaf, by simp [h.next]⟩
  rcases List.mem_append.mp hother with hother | hother
  · -- A leaf in front has an outcome among the failures.
    have houtcome : other.outcome env ∈ failures.map .error :=
      h.outcomes ▸ List.mem_map_of_mem hother
    obtain ⟨failure, -, heq⟩ := List.mem_map.mp houtcome
    exact ⟨failure, heq.symm⟩
  · exact hbefore other hother

/-! ## Asking a tree -/

/-- What asking the members of a chain in order comes to, by what `resolveFirst` returns. -/
def MembersFall (env : Environment) (members : List (Provider κ))
    (result : Except (List Failure) Credentials) (next : List (Provider κ)) : Prop :=
  match result with
  | .ok credentials => FirstOf env (leavesOf members) (leavesOf next) credentials
  | .error failures => Exhausted env members next failures
    ∧ Exhausted env (leavesOf members) (leavesOf next) (causesOf members failures)
    ∧ failures.any Failure.retryable = (causesOf members failures).any Failure.retryable

/-- What asking a tree comes to, by what `resolve` returns. -/
def Falls (env : Environment) (p : Provider κ) (result : Outcome Credentials) (next : Provider κ) :
    Prop :=
  match result with
  | .ok credentials => FirstOf env p.leaves next.leaves credentials
  | .error failure => Exhausted env p.leaves next.leaves (p.causes failure)
    ∧ failure.retryable = (p.causes failure).any Failure.retryable

/-- A leaf is a tree of one leaf, so asking it is asking the leaf. -/
theorem falls_of_leaf {p : Provider κ} (hleaves : p.leaves = [p])
    (hnext : (p.asked env).leaves = [p.asked env]) (hcauses : ∀ failure, p.causes failure = [failure]) :
    Falls env p (p.outcome env) (p.asked env) := by
  unfold Falls
  split
  next credentials houtcome =>
    exact ⟨[], p, [], hleaves, by simp, houtcome, hnext⟩
  next failure houtcome =>
    rw [hcauses, hleaves, hnext]
    exact ⟨⟨by rw [List.map_singleton, houtcome]; rfl, rfl⟩, by simp⟩

mutual

/-- **Asking a tree comes to asking its leaves in order.** The induction is on the tree; that of a chain is
on its members, each of which is a tree in turn. -/
theorem falls_resolve (env : Environment) : (p : Provider κ) →
    Falls env p (p.outcome env) (p.asked env)
  | fixed credentials => falls_of_leaf rfl rfl fun _ => rfl
  | environment => falls_of_leaf rfl rfl fun _ => rfl
  | custom source => falls_of_leaf rfl rfl fun _ => rfl
  | chain members log => by
    have hmembers := membersFall_resolveFirst env log members
    unfold outcome asked
    rw [resolve_chain]
    rcases hresult : resolveFirst env log members with ⟨result, next, text⟩
    rw [hresult] at hmembers
    cases result with
    | ok credentials => exact hmembers
    | error failures => exact hmembers.2

/-- The members of a chain come to their leaves in order. The flag of the chain is set by the failures of
its members, and each of these sets its own by the leaves below it. -/
theorem membersFall_resolveFirst (env : Environment) (log : Bool) : (members : List (Provider κ)) →
    MembersFall env members (resolveFirst env log members).1 (resolveFirst env log members).2.1
  | [] => ⟨⟨rfl, rfl⟩, ⟨rfl, rfl⟩, rfl⟩
  | member :: members => by
    have hmember := falls_resolve env member
    have hmembers := membersFall_resolveFirst env log members
    rw [resolveFirst_cons]
    cases houtcome : member.outcome env with
    | ok credentials =>
      rw [houtcome] at hmember
      exact hmember.append (leavesOf members)
    | error failure =>
      rw [houtcome] at hmember
      obtain ⟨hleaves, hretryable⟩ := hmember
      -- The member itself is one that failed, besides the leaves that it has.
      have hfailed : Exhausted env [member] [member.asked env] [failure] :=
        ⟨by rw [List.map_singleton, houtcome]; rfl, rfl⟩
      rcases hrest : resolveFirst env log members with ⟨rest, next, text⟩
      rw [hrest] at hmembers
      cases rest with
      | ok credentials => exact hleaves.firstOf hmembers
      | error failures =>
        obtain ⟨hdirect, hothers, hothersRetryable⟩ := hmembers
        refine ⟨hfailed.append hdirect, hleaves.append hothers, ?_⟩
        rw [causesOf, List.any_append, List.any_cons, hretryable, hothersRetryable]

end

mutual

/-- Asking leaves the tree as it is, but for the states of its leaves. -/
theorem shape_asked (env : Environment) : (p : Provider κ) → (p.asked env).shape = p.shape
  | fixed credentials => rfl
  | environment => rfl
  | custom source => rfl
  | chain members log => by
    unfold asked
    rw [resolve_chain]
    exact congrArg (chain · log) (shape_resolveFirst env log members)

/-- So do the members of a chain, those that were asked and those that were not. -/
theorem shape_resolveFirst (env : Environment) (log : Bool) : (members : List (Provider κ)) →
    mapMembers id (fun _ => ()) (resolveFirst env log members).2.1
      = mapMembers id (fun _ => ()) members
  | [] => rfl
  | member :: members => by
    have hmember := shape_asked env member
    rw [resolveFirst_cons]
    cases member.outcome env with
    | ok credentials => exact congrArg (· :: _) hmember
    | error failure => exact List.cons_eq_cons.mpr ⟨hmember, shape_resolveFirst env log members⟩

end

/-! ## Asking a tree again and again

Asking changes the states of the leaves, so what a tree answers later depends on how often each was
asked. -/

/-- The provider after it was asked in each of these environments, one after the other. -/
def askedIn (envs : List Environment) (p : Provider κ) : Provider κ :=
  envs.foldl (fun p env => p.asked env) p

/-- However often a tree is asked, it has the same shape. The induction is on the environments. -/
theorem shape_askedIn (envs : List Environment) (p : Provider κ) :
    (p.askedIn envs).shape = p.shape := by
  induction envs generalizing p with
  | nil => rfl
  | cons env envs ih => exact (ih (p.asked env)).trans (shape_asked env p)

/-- A chain stays a chain of as many members, of the same kinds and in the same order, since its shape
stays. -/
theorem exists_askedIn_chain (envs : List Environment) (members : List (Provider κ)) (log : Bool) :
    ∃ current, (chain members log).askedIn envs = chain current log
      ∧ mapMembers id (fun _ => ()) current = mapMembers id (fun _ => ()) members := by
  have hshape := shape_askedIn envs (chain members log)
  generalize (chain members log).askedIn envs = p at hshape
  cases p with
  | fixed credentials => exact absurd hshape (by simp [shape, map])
  | environment => exact absurd hshape (by simp [shape, map])
  | custom source => exact absurd hshape (by simp [shape, map])
  | chain current log' =>
    simp only [shape, map, chain.injEq] at hshape
    exact ⟨current, by rw [hshape.2], hshape.1⟩

end Provider

/-! ## A provider for examples -/

/-- Fails with these failures, one after the other, then has credentials. It counts how often it was
asked. -/
structure Unsteady where
  failures : List Failure := []
  credentials : Credentials := {}
  count : Nat := 0

instance : CredentialsSource Unsteady where
  name _ := ascii "Unsteady"
  resolve source :=
    match source.failures with
    | [] => (.ok source.credentials, { source with count := source.count + 1 })
    | failure :: failures => (.error failure, { source with failures, count := source.count + 1 })

end SigV4
