import Invokrum.Distribution.Publisher

/-!
# Host trust policy

Constructors of publisher evidence, and the policy that authorizes an assertion
for one subject. A policy has between one and 64 rules.
-/

namespace Invokrum.Distribution

open Outcome Ordered

def maxTrustRules : Nat := 64

/-! ## Constructors of evidence -/

def VerificationMechanism.parse (value : String) :
    Except DistributionError VerificationMechanism :=
  if h : validMechanism value = true then .ok ⟨value, h⟩ else .error .invalidVerificationMechanism

/-- The loop over the attributes, with the names it has seen. -/
def checkAttributes (seen : List String) : List (String × String) → Except DistributionError Unit
  | [] => .ok ()
  | (name, value) :: rest => do
      rejectIf (validAttributeName name = false) .invalidIdentityAttributeName
      rejectIf (validAttributeValue value = false) .invalidIdentityAttributeValue
      rejectIf (name ∈ seen) .duplicateIdentityAttribute
      checkAttributes (name :: seen) rest

/-- The checks of the constructor, in source order. -/
def checkIdentity (attributes : List (String × String)) : Except DistributionError Unit := do
  rejectIf (attributes.isEmpty = true) .emptyPublisherIdentity
  rejectIf (maxIdentityAttributes < attributes.length) .tooManyIdentityAttributes
  checkAttributes [] attributes

theorem checkAttributes_eq_ok {seen : List String} {attributes : List (String × String)}
    {u : Unit} : checkAttributes seen attributes = .ok u ↔
      (∀ entry ∈ attributes, validAttributeName entry.1 = true) ∧
        (∀ entry ∈ attributes, validAttributeValue entry.2 = true) ∧
          (∀ entry ∈ attributes, entry.1 ∉ seen) ∧ (attributes.map Prod.fst).Nodup := by
  induction attributes generalizing seen with
  | nil => simp [checkAttributes]
  | cons entry rest ih =>
      obtain ⟨name, value⟩ := entry
      simp only [checkAttributes, bind_eq_ok, rejectIf_eq_ok, exists_const, ih,
        Bool.not_eq_false, forall_eq_or_imp, List.map_cons, List.nodup_cons, List.mem_cons,
        not_or]
      constructor
      · intro h
        obtain ⟨hname, hvalue, hfresh, hnames, hvalues, hseen, hnodup⟩ := h
        refine ⟨⟨hname, hnames⟩, ⟨hvalue, hvalues⟩, ⟨hfresh, fun e he => (hseen e he).2⟩, ?_,
          hnodup⟩
        intro hmem
        obtain ⟨e, he, heq⟩ := List.mem_map.mp hmem
        exact (hseen e he).1 heq
      · intro h
        obtain ⟨⟨hname, hnames⟩, ⟨hvalue, hvalues⟩, ⟨hfresh, hseen⟩, hnot, hnodup⟩ := h
        refine ⟨hname, hvalue, hfresh, hnames, hvalues, fun e he => ⟨?_, hseen e he⟩, hnodup⟩
        intro heq
        exact hnot (List.mem_map.mpr ⟨e, he, heq⟩)

/-- What the constructor accepts. -/
structure ValidIdentity (attributes : List (String × String)) : Prop where
  nonempty : attributes ≠ []
  count : attributes.length ≤ maxIdentityAttributes
  names : ∀ entry ∈ attributes, validAttributeName entry.1 = true
  values : ∀ entry ∈ attributes, validAttributeValue entry.2 = true
  distinct : (attributes.map Prod.fst).Nodup

theorem checkIdentity_eq_ok {attributes : List (String × String)} {u : Unit} :
    checkIdentity attributes = .ok u ↔ ValidIdentity attributes := by
  simp only [checkIdentity, bind_eq_ok, rejectIf_eq_ok, exists_const, checkAttributes_eq_ok,
    List.isEmpty_iff, not_lt]
  constructor
  · intro h
    obtain ⟨hempty, hcount, hnames, hvalues, _, hdistinct⟩ := h
    exact ⟨hempty, hcount, hnames, hvalues, hdistinct⟩
  · intro h
    exact ⟨h.nonempty, h.count, h.names, h.values, by simp, h.distinct⟩

/-- The identity with these attributes. -/
def PublisherIdentity.of (attributes : List (String × String)) (h : ValidIdentity attributes) :
    PublisherIdentity where
  attributes := ⟨sortByKey Prod.fst attributes, sortByKey_strict Prod.fst h.distinct⟩
  nonempty := by
    intro hnil
    have hlength := length_sortByKey Prod.fst attributes
    rw [show sortByKey Prod.fst attributes = [] from hnil] at hlength
    exact h.nonempty (List.length_eq_zero_iff.mp hlength.symm)
  count := (length_sortByKey Prod.fst attributes).trans_le h.count
  names := fun entry hentry => h.names entry ((mem_sortByKey _).mp hentry)
  values := fun entry hentry => h.values entry ((mem_sortByKey _).mp hentry)

def PublisherIdentity.new (attributes : List (String × String)) :
    Except DistributionError PublisherIdentity :=
  match h : checkIdentity attributes with
  | .ok _ => .ok (.of attributes (checkIdentity_eq_ok.mp h))
  | .error e => .error e

theorem PublisherIdentity.new_eq_ok {attributes : List (String × String)}
    {identity : PublisherIdentity} : PublisherIdentity.new attributes = .ok identity ↔
      ∃ h : ValidIdentity attributes, identity = .of attributes h := by
  unfold PublisherIdentity.new
  constructor
  · intro h
    split at h
    · next hcheck =>
        cases h
        exact ⟨checkIdentity_eq_ok.mp hcheck, rfl⟩
    · cases h
  · intro h
    obtain ⟨hvalid, rfl⟩ := h
    split
    · rfl
    · next hcheck =>
        have hok : checkIdentity attributes = .ok () := checkIdentity_eq_ok.mpr hvalid
        rw [hok] at hcheck
        cases hcheck

/-! ## Policy -/

inductive TrustError where
  | subjectMismatch
  | publisherNotAllowed
deriving DecidableEq

/-- Every required attribute is there with its value. -/
def PublisherIdentity.containsAll (identity required : PublisherIdentity) : Bool :=
  required.attributes.entries.all fun entry => identity.attributes.get entry.1 == some entry.2

structure TrustRule where
  mechanism : VerificationMechanism
  requiredIdentity : PublisherIdentity
deriving DecidableEq

namespace TrustRule

def «matches» (rule : TrustRule) (assertion : PublisherAssertion) : Bool :=
  rule.mechanism == assertion.mechanism && assertion.identity.containsAll rule.requiredIdentity

end TrustRule

structure TrustPolicy where
  rules : List TrustRule
  nonempty : rules ≠ []
  count : rules.length ≤ maxTrustRules
deriving DecidableEq

namespace TrustPolicy

def new (rules : List TrustRule) : Except DistributionError TrustPolicy :=
  if hempty : rules = [] then .error .emptyTrustPolicy
  else if hmany : maxTrustRules < rules.length then .error .tooManyTrustRules
  else .ok ⟨rules, hempty, Nat.le_of_not_lt hmany⟩

def authorize (policy : TrustPolicy) (assertion : PublisherAssertion)
    (expectedSubject : Sha256Digest) : Except TrustError Unit := do
  rejectIf (assertion.subject ≠ expectedSubject) .subjectMismatch
  rejectIf (¬ (policy.rules.any fun rule => rule.matches assertion) = true) .publisherNotAllowed

end TrustPolicy

/-- The rule names the mechanism of the assertion and nothing that its identity lacks. -/
structure TrustRule.Admits (rule : TrustRule) (assertion : PublisherAssertion) : Prop where
  mechanism : rule.mechanism = assertion.mechanism
  identity : ∀ entry ∈ rule.requiredIdentity.attributes.entries,
    entry ∈ assertion.identity.attributes.entries

theorem TrustRule.matches_iff {rule : TrustRule} {assertion : PublisherAssertion} :
    rule.matches assertion = true ↔ rule.Admits assertion := by
  simp only [TrustRule.matches, PublisherIdentity.containsAll, Bool.and_eq_true, beq_iff_eq,
    List.all_eq_true, SortedMap.get_eq_some_iff]
  constructor
  · intro h
    exact ⟨h.1, h.2⟩
  · intro h
    exact ⟨h.mechanism, h.identity⟩

/-- The subject is the expected one and some rule admits the assertion. -/
structure TrustPolicy.Authorizes (policy : TrustPolicy) (assertion : PublisherAssertion)
    (expectedSubject : Sha256Digest) : Prop where
  subject : assertion.subject = expectedSubject
  rule : ∃ rule ∈ policy.rules, rule.Admits assertion

theorem TrustPolicy.authorize_eq_ok {policy : TrustPolicy} {assertion : PublisherAssertion}
    {expectedSubject : Sha256Digest} {u : Unit} :
    policy.authorize assertion expectedSubject = .ok u ↔
      policy.Authorizes assertion expectedSubject := by
  simp only [TrustPolicy.authorize, bind_eq_ok, rejectIf_eq_ok, exists_const, ne_eq, not_not,
    List.any_eq_true, TrustRule.matches_iff]
  constructor
  · intro h
    exact ⟨h.1, h.2⟩
  · intro h
    exact ⟨h.subject, h.rule⟩

end Invokrum.Distribution
