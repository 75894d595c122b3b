import Invokrum.Base.Execution
import Invokrum.Distribution.Trust
import Invokrum.Install.Record

/-!
# Installation workflows

The two workflows as programs over calls of their ports. The reply to every call
is left open, so a run of a workflow is a run against any verifier, loader and
store, whatever state they keep.
-/

namespace Invokrum.Install

open Programs Outcome Invokrum.Distribution Invokrum.Acquisition

variable {VerifierError LoadError StoreError Receipt : Type}

/-! ## Ports -/

inductive PortCall where
  | verify (subject : Sha256Digest)
  | load (manifest : BundleManifest)
  | install (bundle : VerifiedBundle)
  | installAuthenticated (bundle : VerifiedBundle) (publisher : AuthorizedPublisher)

namespace PortCall

@[reducible] def Value (Receipt : Type) : PortCall → Type
  | .verify _ => PublisherAssertion
  | .load _ => List CandidateFile
  | .install _ => Receipt
  | .installAuthenticated _ _ => Receipt

@[reducible] def Error (VerifierError LoadError StoreError : Type) : PortCall → Type
  | .verify _ => VerifierError
  | .load _ => LoadError
  | .install _ => StoreError
  | .installAuthenticated _ _ => StoreError

@[reducible] def Reply (VerifierError LoadError StoreError Receipt : Type) (c : PortCall) : Type :=
  Except (c.Error VerifierError LoadError StoreError) (c.Value Receipt)

end PortCall

/-- A program over the ports. -/
abbrev Workflow (VerifierError LoadError StoreError Receipt ε α : Type) : Type :=
  Fallible PortCall (PortCall.Reply VerifierError LoadError StoreError Receipt) ε α

abbrev PortEvent (VerifierError LoadError StoreError Receipt : Type) : Type :=
  Event PortCall (PortCall.Reply VerifierError LoadError StoreError Receipt)

/-- A port call whose error ends the workflow. -/
def ask {ε : Type} (c : PortCall) (wrap : c.Error VerifierError LoadError StoreError → ε) :
    Workflow VerifierError LoadError StoreError Receipt ε (c.Value Receipt) :=
  Fallible.attempt c wrap

/-! ## Errors -/

inductive InstallWorkflowError (LoadError StoreError : Type) where
  | verification (error : CandidateVerificationError)
  | load (error : LoadError)
  | store (error : StoreError)
deriving DecidableEq

inductive PublisherAuthenticationError (VerifierError : Type) where
  | verification (error : VerifierError)
  | authorization (error : TrustError)
deriving DecidableEq

inductive AuthenticatedInstallWorkflowError (VerifierError LoadError StoreError : Type) where
  | candidateVerification (error : CandidateVerificationError)
  | publisherVerification (error : VerifierError)
  | publisherAuthorization (error : TrustError)
  | load (error : LoadError)
  | store (error : StoreError)
deriving DecidableEq

def PublisherAuthenticationError.widen :
    PublisherAuthenticationError VerifierError →
      AuthenticatedInstallWorkflowError VerifierError LoadError StoreError
  | .verification error => .publisherVerification error
  | .authorization error => .publisherAuthorization error

/-! ## The workflows -/

def authorizePublisher (policy : TrustPolicy) (expectedSubject : Sha256Digest) :
    Workflow VerifierError LoadError StoreError Receipt
      (PublisherAuthenticationError VerifierError) AuthorizedPublisher := do
  let assertion ← ask (.verify expectedSubject) .verification
  Fallible.ofExcept ((policy.authorize assertion expectedSubject).mapError .authorization)
  pure ⟨assertion⟩

def installCandidate (manifest : BundleManifest) (manifestSubject expectedSubject : Sha256Digest) :
    Workflow VerifierError LoadError StoreError Receipt
      (InstallWorkflowError LoadError StoreError) Receipt := do
  Fallible.throwIf (manifestSubject ≠ expectedSubject) (.verification .subjectMismatch)
  let candidates ← ask (.load manifest) .load
  let verified ← Fallible.ofExcept
    ((verifyCandidate manifest manifestSubject expectedSubject candidates).mapError .verification)
  ask (.install verified) .store

def installAuthenticatedCandidate (policy : TrustPolicy) (manifest : BundleManifest)
    (manifestSubject expectedSubject : Sha256Digest) :
    Workflow VerifierError LoadError StoreError Receipt
      (AuthenticatedInstallWorkflowError VerifierError LoadError StoreError) Receipt := do
  Fallible.throwIf (manifestSubject ≠ expectedSubject) (.candidateVerification .subjectMismatch)
  let publisher ← ExceptT.adapt PublisherAuthenticationError.widen
    (authorizePublisher policy expectedSubject)
  let candidates ← ask (.load manifest) .load
  let verifiedBundle ← Fallible.ofExcept
    ((verifyCandidate manifest manifestSubject expectedSubject candidates).mapError
      .candidateVerification)
  Fallible.throwIf (publisher.subject ≠ verifiedBundle.subject)
    (.publisherAuthorization .subjectMismatch)
  ask (.installAuthenticated verifiedBundle publisher) .store

/-! ## The runs of the workflows -/

/-- The runs of `installAuthenticatedCandidate`, by the step they end in. -/
inductive AuthenticatedRun (policy : TrustPolicy) (manifest : BundleManifest)
    (manifestSubject expectedSubject : Sha256Digest) :
    List (PortEvent VerifierError LoadError StoreError Receipt) →
      Except (AuthenticatedInstallWorkflowError VerifierError LoadError StoreError) Receipt →
        Prop where
  | contradictory (hsubject : manifestSubject ≠ expectedSubject) :
      AuthenticatedRun policy manifest manifestSubject expectedSubject []
        (.error (.candidateVerification .subjectMismatch))
  | unverified (hsubject : manifestSubject = expectedSubject) (error : VerifierError) :
      AuthenticatedRun policy manifest manifestSubject expectedSubject
        [⟨.verify expectedSubject, .error error⟩] (.error (.publisherVerification error))
  | unauthorized (hsubject : manifestSubject = expectedSubject) (assertion : PublisherAssertion)
      (error : TrustError) : AuthenticatedRun policy manifest manifestSubject expectedSubject
        [⟨.verify expectedSubject, .ok assertion⟩] (.error (.publisherAuthorization error))
  | unloaded (hsubject : manifestSubject = expectedSubject) (assertion : PublisherAssertion)
      (hauthorized : policy.Authorizes assertion expectedSubject) (error : LoadError) :
      AuthenticatedRun policy manifest manifestSubject expectedSubject
        [⟨.verify expectedSubject, .ok assertion⟩, ⟨.load manifest, .error error⟩]
        (.error (.load error))
  | rejected (hsubject : manifestSubject = expectedSubject) (assertion : PublisherAssertion)
      (hauthorized : policy.Authorizes assertion expectedSubject)
      (candidates : List CandidateFile) (error : CandidateVerificationError)
      (hrejected : verifyCandidate manifest manifestSubject expectedSubject candidates =
        .error error) : AuthenticatedRun policy manifest manifestSubject expectedSubject
        [⟨.verify expectedSubject, .ok assertion⟩, ⟨.load manifest, .ok candidates⟩]
        (.error (.candidateVerification error))
  | stored (hsubject : manifestSubject = expectedSubject) (assertion : PublisherAssertion)
      (hauthorized : policy.Authorizes assertion expectedSubject)
      (candidates : List CandidateFile) (bundle : VerifiedBundle)
      (hverified : verifyCandidate manifest manifestSubject expectedSubject candidates =
        .ok bundle) (reply : Except StoreError Receipt) :
      AuthenticatedRun policy manifest manifestSubject expectedSubject
        [⟨.verify expectedSubject, .ok assertion⟩, ⟨.load manifest, .ok candidates⟩,
          ⟨.installAuthenticated bundle ⟨assertion⟩, reply⟩] (reply.mapError .store)

section

variable {S : Type} {policy : TrustPolicy} {manifest : BundleManifest}
  {manifestSubject expectedSubject : Sha256Digest} {s s' : S}
  {sem : S → (c : PortCall) →
    PortCall.Reply VerifierError LoadError StoreError Receipt c → S → Prop}
  {trace : List (PortEvent VerifierError LoadError StoreError Receipt)}

/-- Authorization asks the verifier once and then decides on its own. -/
theorem executes_authorizePublisher
    {r : Except (PublisherAuthenticationError VerifierError) AuthorizedPublisher}
    (h : Executes sem s (authorizePublisher policy expectedSubject).run trace r s') :
    (∃ error, trace = [⟨.verify expectedSubject, .error error⟩] ∧
      r = .error (.verification error)) ∨
    ∃ assertion, trace = [⟨.verify expectedSubject, .ok assertion⟩] ∧
      ((∃ error, r = .error (.authorization error)) ∨
        (policy.Authorizes assertion expectedSubject ∧ r = .ok ⟨assertion⟩)) := by
  rcases executes_attempt_bind.mp h with ⟨error, _, rfl, rfl⟩ | ⟨assertion, _, _, _, hrest, rfl⟩
  · exact .inl ⟨error, rfl, rfl⟩
  · refine .inr ⟨assertion, ?_⟩
    rcases executes_ofExcept_bind.mp hrest with ⟨e, hdecide, rfl, rfl, _⟩ | ⟨_, hdecide, hdone⟩
    · obtain ⟨error, _, rfl⟩ := mapError_eq_error.mp hdecide
      exact ⟨rfl, .inl ⟨error, rfl⟩⟩
    · obtain ⟨rfl, rfl, _⟩ := executes_pure.mp hdone
      exact ⟨rfl, .inr ⟨TrustPolicy.authorize_eq_ok.mp (mapError_eq_ok.mp hdecide), rfl⟩⟩

/-- From an authorized assertion on, the loader is asked, then the store. -/
theorem executes_loadAndStore {assertion : PublisherAssertion}
    {r : Except (AuthenticatedInstallWorkflowError VerifierError LoadError StoreError) Receipt}
    (hsubject : manifestSubject = expectedSubject)
    (hauthorized : policy.Authorizes assertion expectedSubject)
    (h : Executes sem s (do
      let candidates ← ask (.load manifest) .load
      let verifiedBundle ← Fallible.ofExcept
        ((verifyCandidate manifest manifestSubject expectedSubject candidates).mapError
          .candidateVerification)
      Fallible.throwIf ((⟨assertion⟩ : AuthorizedPublisher).subject ≠ verifiedBundle.subject)
        (.publisherAuthorization .subjectMismatch)
      ask (.installAuthenticated verifiedBundle ⟨assertion⟩) .store :
        Workflow VerifierError LoadError StoreError Receipt
          (AuthenticatedInstallWorkflowError VerifierError LoadError StoreError) Receipt).run
      trace r s') :
    AuthenticatedRun policy manifest manifestSubject expectedSubject
      (⟨.verify expectedSubject, .ok assertion⟩ :: trace) r := by
  rcases executes_attempt_bind.mp h with ⟨error, _, rfl, rfl⟩ | ⟨candidates, _, _, _, hverify, rfl⟩
  · exact .unloaded hsubject assertion hauthorized error
  rcases executes_ofExcept_bind.mp hverify with ⟨e, hrejected, rfl, rfl, _⟩ | ⟨bundle, hok, hstore⟩
  · obtain ⟨error, hcause, rfl⟩ := mapError_eq_error.mp hrejected
    exact .rejected hsubject assertion hauthorized candidates error hcause
  have hbundle := mapError_eq_ok.mp hok
  rcases executes_throwIf_bind.mp hstore with ⟨hother, _⟩ | ⟨_, hask⟩
  · obtain ⟨_, rfl⟩ := verifyCandidate_eq_ok.mp hbundle
    exact absurd (hauthorized.subject.trans hsubject.symm) hother
  · obtain ⟨reply, _, rfl, rfl⟩ := executes_attempt.mp hask
    exact .stored hsubject assertion hauthorized candidates bundle hbundle reply

theorem executes_installAuthenticatedCandidate
    {r : Except (AuthenticatedInstallWorkflowError VerifierError LoadError StoreError) Receipt}
    (h : Executes sem s (installAuthenticatedCandidate policy manifest manifestSubject
      expectedSubject).run trace r s') :
    AuthenticatedRun policy manifest manifestSubject expectedSubject trace r := by
  rcases executes_throwIf_bind.mp h with ⟨hsubject, rfl, rfl, _⟩ | ⟨hsubject, hverify⟩
  · exact .contradictory hsubject
  rw [not_not] at hsubject
  rcases executes_bind.mp hverify with
    ⟨e, hadapt, rfl⟩ | ⟨publisher, _, _, rest, hadapt, hload, rfl⟩
  · obtain ⟨v, hrun, hv⟩ := executes_adapt.mp hadapt
    rcases executes_authorizePublisher hrun with ⟨error, rfl, rfl⟩ | ⟨assertion, rfl, hcase⟩
    · cases hv
      exact .unverified hsubject error
    · rcases hcase with ⟨error, rfl⟩ | ⟨_, rfl⟩
      · cases hv
        exact .unauthorized hsubject assertion error
      · cases hv
  · obtain ⟨v, hrun, hv⟩ := executes_adapt.mp hadapt
    rcases executes_authorizePublisher hrun with ⟨error, rfl, rfl⟩ | ⟨assertion, rfl, hcase⟩
    · cases hv
    · rcases hcase with ⟨error, rfl⟩ | ⟨hauthorized, rfl⟩
      · cases hv
      · cases hv
        exact executes_loadAndStore hsubject hauthorized hload

/-- `installCandidate` asks the store for the verified bundle of what it loaded. -/
theorem executes_installCandidate {r : Except (InstallWorkflowError LoadError StoreError) Receipt}
    {candidates : List CandidateFile} {bundle : VerifiedBundle}
    (hverified : verifyCandidate manifest manifestSubject expectedSubject candidates = .ok bundle)
    (h : Executes sem s (installCandidate manifest manifestSubject expectedSubject).run trace r s')
    (hloaded : (⟨.load manifest, .ok candidates⟩ : PortEvent ..) ∈ trace) :
    trace.map (·.call) = [.load manifest, .install bundle] := by
  rcases executes_throwIf_bind.mp h with ⟨_, rfl, _⟩ | ⟨_, hload⟩
  · cases hloaded
  rcases executes_attempt_bind.mp hload with ⟨error, _, rfl, rfl⟩ | ⟨loaded, _, _, _, hverify, rfl⟩
  · simp at hloaded
  rcases executes_ofExcept_bind.mp hverify with ⟨e, hrejected, rfl, _⟩ | ⟨bundle', hok, hstore⟩
  · obtain ⟨error, hcause, rfl⟩ := mapError_eq_error.mp hrejected
    simp only [List.mem_singleton, Event.mk.injEq, heq_eq_eq, true_and, Except.ok.injEq] at hloaded
    rw [← hloaded, hverified] at hcause
    cases hcause
  · obtain ⟨reply, _, rfl, _⟩ := executes_attempt.mp hstore
    simp only [List.mem_cons, Event.mk.injEq, heq_eq_eq, true_and, Except.ok.injEq, reduceCtorEq,
      false_and, List.not_mem_nil, or_false] at hloaded
    rw [← hloaded] at hok
    cases (mapError_eq_ok.mp hok).symm.trans hverified
    rfl

end

/-! ## Positions in short runs -/

section

variable {α : Type} {x y z e : α} {before after : List α}

theorem split_one (h : [x] = before ++ e :: after) : before = [] ∧ e = x ∧ after = [] := by
  cases before with
  | nil =>
      cases h
      exact ⟨rfl, rfl, rfl⟩
  | cons a before => simp at h

theorem split_two (h : [x, y] = before ++ e :: after) :
    (before = [] ∧ e = x ∧ after = [y]) ∨ (before = [x] ∧ e = y ∧ after = []) := by
  cases before with
  | nil =>
      cases h
      exact .inl ⟨rfl, rfl, rfl⟩
  | cons a before =>
      rw [List.cons_append, List.cons.injEq] at h
      obtain ⟨rfl, rfl, rfl⟩ := split_one h.2
      exact .inr ⟨by rw [h.1], rfl, rfl⟩

theorem split_three (h : [x, y, z] = before ++ e :: after) :
    (before = [] ∧ e = x ∧ after = [y, z]) ∨ (before = [x] ∧ e = y ∧ after = [z]) ∨
      (before = [x, y] ∧ e = z ∧ after = []) := by
  cases before with
  | nil =>
      cases h
      exact .inl ⟨rfl, rfl, rfl⟩
  | cons a before =>
      rw [List.cons_append, List.cons.injEq] at h
      rcases split_two h.2 with ⟨rfl, rfl, rfl⟩ | ⟨rfl, rfl, rfl⟩
      · exact .inr (.inl ⟨by rw [h.1], rfl, rfl⟩)
      · exact .inr (.inr ⟨by rw [h.1], rfl, rfl⟩)

end

/-! ## Gates -/

/-- What every run of the authenticated workflow respects, whatever the ports answer. -/
structure Gated (policy : TrustPolicy) (manifest : BundleManifest)
    (manifestSubject expectedSubject : Sha256Digest)
    (trace : List (PortEvent VerifierError LoadError StoreError Receipt)) : Prop where
  order : trace.map (·.call) <+: [.verify expectedSubject, .load manifest] ∨
    ∃ bundle publisher, trace.map (·.call) =
      [.verify expectedSubject, .load manifest, .installAuthenticated bundle publisher]
  contradictory : manifestSubject ≠ expectedSubject → trace = []
  loaded : ∀ before e after, trace = before ++ e :: after → e.call = .load manifest →
    ∃ assertion, before = [⟨.verify expectedSubject, .ok assertion⟩] ∧
      policy.Authorizes assertion expectedSubject
  stored : ∀ before e after bundle publisher, trace = before ++ e :: after →
    e.call = .installAuthenticated bundle publisher → ∃ candidates,
      before = [⟨.verify expectedSubject, .ok publisher.assertion⟩,
        ⟨.load manifest, .ok candidates⟩] ∧
      policy.Authorizes publisher.assertion expectedSubject ∧
      verifyCandidate manifest manifestSubject expectedSubject candidates = .ok bundle ∧
      bundle.subject = expectedSubject ∧ publisher.subject = expectedSubject
  failed : ∀ before e after error, trace = before ++ e :: after → e.reply = .error error →
    after = []

section

variable {policy : TrustPolicy} {manifest : BundleManifest}
  {manifestSubject expectedSubject : Sha256Digest}
  {trace : List (PortEvent VerifierError LoadError StoreError Receipt)}
  {r : Except (AuthenticatedInstallWorkflowError VerifierError LoadError StoreError) Receipt}

theorem AuthenticatedRun.gated
    (h : AuthenticatedRun policy manifest manifestSubject expectedSubject trace r) :
    Gated policy manifest manifestSubject expectedSubject trace := by
  constructor
  · cases h with
    | contradictory hsubject => exact .inl List.nil_prefix
    | unverified hsubject error => exact .inl ⟨[_], rfl⟩
    | unauthorized hsubject assertion error => exact .inl ⟨[_], rfl⟩
    | unloaded hsubject assertion hauthorized error => exact .inl ⟨[], rfl⟩
    | rejected hsubject assertion hauthorized candidates error hrejected => exact .inl ⟨[], rfl⟩
    | stored hsubject assertion hauthorized candidates bundle hverified reply =>
        exact .inr ⟨bundle, ⟨assertion⟩, rfl⟩
  · intro hne
    cases h with
    | contradictory hsubject => rfl
    | _ => contradiction
  · intro before e after htrace hcall
    cases h with
    | contradictory hsubject => simp at htrace
    | unverified hsubject error =>
        obtain ⟨rfl, rfl, rfl⟩ := split_one htrace
        cases hcall
    | unauthorized hsubject assertion error =>
        obtain ⟨rfl, rfl, rfl⟩ := split_one htrace
        cases hcall
    | unloaded hsubject assertion hauthorized error =>
        rcases split_two htrace with ⟨rfl, rfl, rfl⟩ | ⟨rfl, rfl, rfl⟩
        · cases hcall
        · exact ⟨assertion, rfl, hauthorized⟩
    | rejected hsubject assertion hauthorized candidates error hrejected =>
        rcases split_two htrace with ⟨rfl, rfl, rfl⟩ | ⟨rfl, rfl, rfl⟩
        · cases hcall
        · exact ⟨assertion, rfl, hauthorized⟩
    | stored hsubject assertion hauthorized candidates bundle hverified reply =>
        rcases split_three htrace with ⟨rfl, rfl, rfl⟩ | ⟨rfl, rfl, rfl⟩ | ⟨rfl, rfl, rfl⟩
        · cases hcall
        · exact ⟨assertion, rfl, hauthorized⟩
        · cases hcall
  · intro before e after bundle publisher htrace hcall
    cases h with
    | contradictory hsubject => simp at htrace
    | unverified hsubject error =>
        obtain ⟨rfl, rfl, rfl⟩ := split_one htrace
        cases hcall
    | unauthorized hsubject assertion error =>
        obtain ⟨rfl, rfl, rfl⟩ := split_one htrace
        cases hcall
    | unloaded hsubject assertion hauthorized error =>
        rcases split_two htrace with ⟨rfl, rfl, rfl⟩ | ⟨rfl, rfl, rfl⟩ <;> cases hcall
    | rejected hsubject assertion hauthorized candidates error hrejected =>
        rcases split_two htrace with ⟨rfl, rfl, rfl⟩ | ⟨rfl, rfl, rfl⟩ <;> cases hcall
    | stored hsubject assertion hauthorized candidates bundle hverified reply =>
        rcases split_three htrace with ⟨rfl, rfl, rfl⟩ | ⟨rfl, rfl, rfl⟩ | ⟨rfl, rfl, rfl⟩
        · cases hcall
        · cases hcall
        · cases hcall
          have hbundle := (verifyCandidate_eq_ok.mp hverified).2
          refine ⟨candidates, rfl, hauthorized, hverified, ?_, hauthorized.subject⟩
          rw [hbundle]
          exact hsubject
  · intro before e after error htrace hreply
    cases h with
    | contradictory hsubject => simp at htrace
    | unverified hsubject error =>
        obtain ⟨rfl, rfl, rfl⟩ := split_one htrace
        rfl
    | unauthorized hsubject assertion error =>
        obtain ⟨rfl, rfl, rfl⟩ := split_one htrace
        rfl
    | unloaded hsubject assertion hauthorized error =>
        rcases split_two htrace with ⟨rfl, rfl, rfl⟩ | ⟨rfl, rfl, rfl⟩
        · cases hreply
        · rfl
    | rejected hsubject assertion hauthorized candidates error hrejected =>
        rcases split_two htrace with ⟨rfl, rfl, rfl⟩ | ⟨rfl, rfl, rfl⟩ <;> cases hreply
    | stored hsubject assertion hauthorized candidates bundle hverified reply =>
        rcases split_three htrace with ⟨rfl, rfl, rfl⟩ | ⟨rfl, rfl, rfl⟩ | ⟨rfl, rfl, rfl⟩
        · cases hreply
        · cases hreply
        · rfl

/-- A store call of a run gets what the digest-only workflow would give its store for the same
loaded files. -/
theorem AuthenticatedRun.sameBundle
    (h : AuthenticatedRun policy manifest manifestSubject expectedSubject trace r)
    {candidates : List CandidateFile} {bundle : VerifiedBundle} {publisher : AuthorizedPublisher}
    (hloaded : (⟨.load manifest, .ok candidates⟩ : PortEvent ..) ∈ trace)
    (hstored : .installAuthenticated bundle publisher ∈ trace.map (·.call)) :
    verifyCandidate manifest manifestSubject expectedSubject candidates = .ok bundle := by
  cases h with
  | contradictory hsubject => cases hloaded
  | unverified hsubject error => simp at hstored
  | unauthorized hsubject assertion error => simp at hstored
  | unloaded hsubject assertion hauthorized error => simp at hstored
  | rejected hsubject assertion hauthorized candidates' error hrejected => simp at hstored
  | stored hsubject assertion hauthorized candidates' bundle' hverified reply =>
      simp at hloaded hstored
      rw [hloaded, hstored.1]
      exact hverified

end

/-- Authenticated installation gates every port call, whatever its ports do and whatever state
they keep: calls come in order and stop at the first failure, loading needs an authorized
assertion for the expected subject, storing needs the verified bundle of the loaded files, and
that bundle is the one that `installCandidate` asks its own store to install. -/
theorem installAuthenticatedCandidate_gated {S T : Type}
    (sem : S → (c : PortCall) →
      PortCall.Reply VerifierError LoadError StoreError Receipt c → S → Prop)
    (policy : TrustPolicy) (manifest : BundleManifest)
    (manifestSubject expectedSubject : Sha256Digest) (s s' : S)
    (trace : List (PortEvent VerifierError LoadError StoreError Receipt))
    (r : Except (AuthenticatedInstallWorkflowError VerifierError LoadError StoreError) Receipt)
    (hrun : Executes sem s (installAuthenticatedCandidate policy manifest manifestSubject
      expectedSubject).run trace r s') :
    Gated policy manifest manifestSubject expectedSubject trace ∧
      ∀ candidates bundle publisher, (⟨.load manifest, .ok candidates⟩ : PortEvent ..) ∈ trace →
        .installAuthenticated bundle publisher ∈ trace.map (·.call) →
        ∀ (sem' : T → (c : PortCall) →
            PortCall.Reply VerifierError LoadError StoreError Receipt c → T → Prop)
          (t t' : T) (trace' : List (PortEvent VerifierError LoadError StoreError Receipt))
          (r' : Except (InstallWorkflowError LoadError StoreError) Receipt),
          Executes sem' t (installCandidate manifest manifestSubject expectedSubject).run
            trace' r' t' → (⟨.load manifest, .ok candidates⟩ : PortEvent ..) ∈ trace' →
          trace'.map (·.call) = [.load manifest, .install bundle] := by
  have hauthenticated := executes_installAuthenticatedCandidate hrun
  refine ⟨hauthenticated.gated, ?_⟩
  intro candidates bundle publisher hloaded hstored sem' t t' trace' r' hrun' hloaded'
  exact executes_installCandidate (hauthenticated.sameBundle hloaded hstored) hrun' hloaded'

/-! ## A run that stores -/

def sampleMechanism : VerificationMechanism := ⟨"ed25519-subject-v1", by decide +kernel⟩

def sampleIdentity : PublisherIdentity :=
  .of [("key.sha256", sampleDigest.text)]
    ⟨by simp, by decide, by decide +kernel, by decide +kernel, by simp⟩

def samplePolicy : TrustPolicy := ⟨[⟨sampleMechanism, sampleIdentity⟩], by simp, by decide⟩

def sampleAssertion : PublisherAssertion := ⟨sampleMechanism, sampleSubject, sampleIdentity⟩

/-- The ports answer as a run needs them to. -/
def sampleAnswer : (c : PortCall) → PortCall.Reply Unit Unit Unit Unit c
  | .verify _ => .ok sampleAssertion
  | .load _ => .ok [⟨samplePath, [97], by decide⟩]
  | .install _ => .ok ()
  | .installAuthenticated _ _ => .ok ()

theorem installAuthenticatedCandidate_gated_sample :
    Gated samplePolicy oneFileManifest sampleSubject sampleSubject
      ([⟨.verify sampleSubject, .ok sampleAssertion⟩,
        ⟨.load oneFileManifest, .ok [⟨samplePath, [97], by decide⟩]⟩,
        ⟨.installAuthenticated sampleBundle ⟨sampleAssertion⟩, .ok ()⟩] :
          List (PortEvent Unit Unit Unit Unit)) := by
  have hauthorize : samplePolicy.authorize sampleAssertion sampleSubject = .ok () := by
    decide
  have hpublisher : Executes (fun (_ : Unit) c r _ => r = sampleAnswer c) ()
      (authorizePublisher samplePolicy sampleSubject).run
      [⟨.verify sampleSubject, .ok sampleAssertion⟩] (.ok ⟨sampleAssertion⟩) () := by
    apply executes_attempt_bind.mpr
    refine .inr ⟨sampleAssertion, (), [], rfl, ?_, rfl⟩
    apply executes_ofExcept_bind.mpr
    exact .inr ⟨(), by rw [hauthorize]; rfl, .done⟩
  have hstore : Executes (fun (_ : Unit) c r _ => r = sampleAnswer c) ()
      (ask (.installAuthenticated sampleBundle ⟨sampleAssertion⟩) .store : Workflow Unit Unit Unit
        Unit (AuthenticatedInstallWorkflowError Unit Unit Unit) Unit).run
      [⟨.installAuthenticated sampleBundle ⟨sampleAssertion⟩, .ok ()⟩] (.ok ()) () :=
    executes_attempt.mpr ⟨.ok (), rfl, rfl, rfl⟩
  have hrun : Executes (fun (_ : Unit) c r _ => r = sampleAnswer c) ()
      (installAuthenticatedCandidate samplePolicy oneFileManifest sampleSubject sampleSubject).run
      [⟨.verify sampleSubject, .ok sampleAssertion⟩,
        ⟨.load oneFileManifest, .ok [⟨samplePath, [97], by decide⟩]⟩,
        ⟨.installAuthenticated sampleBundle ⟨sampleAssertion⟩, .ok ()⟩] (.ok ()) () := by
    apply executes_throwIf_bind.mpr
    refine .inr ⟨by simp, executes_bind.mpr (.inr ⟨⟨sampleAssertion⟩, (), _, _,
      executes_adapt.mpr ⟨_, hpublisher, rfl⟩, ?_, rfl⟩)⟩
    apply executes_attempt_bind.mpr
    refine .inr ⟨_, (), _, rfl, ?_, rfl⟩
    apply executes_ofExcept_bind.mpr
    refine .inr ⟨sampleBundle, by rw [verifyCandidate_sample]; rfl, ?_⟩
    apply executes_throwIf_bind.mpr
    exact .inr ⟨by simp [AuthorizedPublisher.subject, sampleAssertion, sampleBundle], hstore⟩
  exact (installAuthenticatedCandidate_gated (T := Unit) _ _ _ _ _ _ _ _ _ hrun).1

end Invokrum.Install
