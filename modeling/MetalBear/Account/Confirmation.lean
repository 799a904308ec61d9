import MetalBear.Account.EmailRoutes
import MetalBear.Library.Machine

/-!
# Confirmed addresses

A token of the table says what it is for and until when, but not which address it was mailed to.
This file keeps the history of the tokens beside the store: when each was issued, for which address,
and when it was accepted. A confirmed address was confirmed by a token of its own as long as no token
that was mailed to another address is presented.
-/

namespace MetalBear.Account

open Machine

/-! ## The history of the tokens -/

/-- A token when it was issued. -/
structure EmailIssue where
  token : String
  kind : String
  /-- The address of the account at that time. -/
  address : Option String
  expiresAt : Int
  deriving DecidableEq, Repr

/-- What happened to a token. -/
inductive EmailLogEntry where
  | issued (issue : EmailIssue)
  | accepted (kind token : String) (now : Int)
  deriving DecidableEq, Repr

/-- How a token was last issued, unless it was accepted since. The newest entry comes first. -/
def outstanding : List EmailLogEntry → String → Option EmailIssue
  | [], _ => none
  | .issued issue :: log, token => if issue.token = token then some issue else outstanding log token
  | .accepted _ spent _ :: log, token => if spent = token then none else outstanding log token

/-- The store of an account with the history of its tokens. -/
structure EmailHistory where
  store : EmailStore
  log : List EmailLogEntry
  deriving DecidableEq, Repr

/-- A token that was accepted had been issued for that purpose, was not accepted since, and had not
expired. -/
def TokensOnce (log : List EmailLogEntry) : Prop :=
  ∀ later kind token now earlier, log = later ++ .accepted kind token now :: earlier →
    ∃ issue, outstanding earlier token = some issue ∧ issue.kind = kind ∧ now < issue.expiresAt

/-- A confirmation token that was issued for the address was accepted. -/
def RightlyConfirmed (log : List EmailLogEntry) (address : Option String) : Prop :=
  ∃ later token now earlier issue, log = later ++ .accepted "confirm" token now :: earlier ∧
    outstanding earlier token = some issue ∧ issue.kind = "confirm" ∧ issue.address = address

/-- What is owed in every state. -/
structure EmailLaws (h : EmailHistory) : Prop where
  once : TokensOnce h.log
  confirmed : h.store.emailConfirmed = true → RightlyConfirmed h.log h.store.email

/-! ## The requests -/

/-- The requests that touch the address or its tokens. -/
inductive EmailEvent where
  /-- `createAccount` writes the address into the store. -/
  | create (email : String) (carriedOut : Bool)
  | requestConfirmation (calls : EmailCalls)
  | confirm (params : Option Json) (calls : EmailCalls)
  | requestUpdate (calls : EmailCalls)
  | update (params : Option Json) (calls : EmailCalls)
  | adminUpdate (email : String) (calls : EmailCalls)
  /-- A token for another purpose. -/
  | mint (purpose : OtherPurpose) (calls : MintCalls)
  | spend (purpose : OtherPurpose) (token : String) (calls : VerifyCalls)
  | deleteTokens (purpose : OtherPurpose) (carriedOut : Bool)

/-- What a request leaves. -/
def EmailEvent.reply (s : EmailStore) : EmailEvent → EmailReply
  | .create email carriedOut => ⟨(s.storeEmail email carriedOut).1, .ok (), none, none⟩
  | .requestConfirmation calls => requestEmailConfirmation s calls
  | .confirm params calls => confirmEmail s params calls
  | .requestUpdate calls => requestEmailUpdate s calls
  | .update params calls => updateEmail s params calls
  | .adminUpdate email calls => adminUpdateAccountEmail s email calls
  | .mint purpose calls =>
    ⟨(s.createEmailToken purpose.kind calls).1, .ok (),
      (s.createEmailToken purpose.kind calls).2.toOption, none⟩
  | .spend purpose token calls =>
    ⟨(s.verifyEmailToken purpose.kind token calls).1, .ok (), none,
      (s.verifyEmailToken purpose.kind token calls).2.toOption.map fun _ => token⟩
  | .deleteTokens purpose carriedOut =>
    ⟨s.deleteEmailTokensByKind purpose.kind carriedOut, .ok (), none, none⟩

/-- The purpose of a request's token. -/
def EmailEvent.kind : EmailEvent → String
  | .requestConfirmation _ => "confirm"
  | .confirm _ _ => "confirm"
  | .mint purpose _ => purpose.kind
  | .spend purpose _ _ => purpose.kind
  | _ => "update"

/-- What the minting of a request's token finds. -/
def EmailEvent.mintNow : EmailEvent → Int
  | .requestConfirmation calls => calls.mint.now
  | .requestUpdate calls => calls.mint.now
  | .mint _ calls => calls.now
  | _ => 0

/-- What the presentation of a request's token finds. -/
def EmailEvent.verify : EmailEvent → Option VerifyCalls
  | .confirm _ calls => some calls.verify
  | .update _ calls => some calls.verify
  | .spend _ _ calls => some calls
  | _ => none

/-- The entries of a request. -/
def EmailEvent.entries (s : EmailStore) (ev : EmailEvent) : List EmailLogEntry :=
  ((ev.reply s).spent.map fun token =>
      .accepted ev.kind token (ev.verify.map VerifyCalls.now |>.getD 0)).toList ++
    ((ev.reply s).minted.map fun token =>
      .issued ⟨token, ev.kind, s.email, ev.mintNow + 3600⟩).toList

/-- One request. -/
def EmailHistory.step (h : EmailHistory) (ev : EmailEvent) : EmailHistory :=
  ⟨(ev.reply h.store).store, ev.entries h.store ++ h.log⟩

/-! ## The condition -/

/-- The deletion of a presented token is carried out, or nothing was changed before it. -/
def VerifyCalls.Sound (calls : VerifyCalls) : Prop :=
  calls.prepared = true → calls.deleted = true ∨ calls.earlierChanges = 0

/-- A token that is presented to confirm the address was mailed to it. -/
def PresentsOwnToken (h : EmailHistory) : EmailEvent → Prop
  | .confirm params calls => ∀ token ∈ nonEmptyParam params "token",
    ∀ issue ∈ outstanding h.log token, issue.kind = "confirm" →
      calls.verify.now < issue.expiresAt → issue.address = h.store.email
  | _ => True

/-- The condition on a request. -/
def ConfirmsOwnAddress (h : EmailHistory) (ev : EmailEvent) : Prop :=
  (∀ calls ∈ ev.verify, calls.Sound) ∧ PresentsOwnToken h ev

/-! ## The invariant -/

/-- The tokens of the table are the outstanding ones, and the laws hold. -/
structure EmailOrder (s : EmailStore) (log : List EmailLogEntry) : Prop where
  nodup : (s.tokens.map EmailToken.token).Nodup
  rows : ∀ row ∈ s.tokens, ∃ issue, outstanding log row.token = some issue ∧
    issue.kind = row.kind ∧ issue.expiresAt = row.expiresAt
  laws : EmailLaws ⟨s, log⟩

theorem emailOrder_new : EmailOrder EmailStore.new [] where
  nodup := List.nodup_nil
  rows := by simp [EmailStore.new]
  laws := ⟨by simp [TokensOnce], by simp [EmailStore.new]⟩

theorem RightlyConfirmed.cons {log : List EmailLogEntry} {address : Option String}
    (h : RightlyConfirmed log address) (entry : EmailLogEntry) :
    RightlyConfirmed (entry :: log) address := by
  obtain ⟨later, token, now, earlier, issue, rfl, hrest⟩ := h
  exact ⟨entry :: later, token, now, earlier, issue, rfl, hrest⟩

theorem TokensOnce.issued {log : List EmailLogEntry} (h : TokensOnce log) (issue : EmailIssue) :
    TokensOnce (.issued issue :: log) := by
  intro later kind token now earlier heq
  cases later with
  | nil => cases heq
  | cons entry later =>
    rw [List.cons_append, List.cons.injEq] at heq
    exact h later kind token now earlier heq.2

theorem TokensOnce.accepted {log : List EmailLogEntry} (h : TokensOnce log) {kind token : String}
    {now : Int} (hissue : ∃ issue, outstanding log token = some issue ∧ issue.kind = kind ∧
      now < issue.expiresAt) : TokensOnce (.accepted kind token now :: log) := by
  intro later kind' token' now' earlier heq
  cases later with
  | nil =>
    obtain ⟨⟨rfl, rfl, rfl⟩, rfl⟩ := by simpa using heq
    exact hissue
  | cons entry later =>
    rw [List.cons_append, List.cons.injEq] at heq
    exact h later kind' token' now' earlier heq.2

variable {s s' : EmailStore} {log : List EmailLogEntry} {kind token : String}

/-- Tokens may be dropped. -/
theorem EmailOrder.drop (h : EmailOrder s log) (hsub : s'.tokens.Sublist s.tokens)
    (hemail : s'.email = s.email) (hconfirmed : s'.emailConfirmed = s.emailConfirmed) :
    EmailOrder s' log where
  nodup := h.nodup.sublist (hsub.map _)
  rows := fun row hrow => h.rows row (hsub.subset hrow)
  laws := ⟨h.laws.once, by rw [hconfirmed, hemail]; exact h.laws.confirmed⟩

/-- A new address is not confirmed. -/
theorem EmailOrder.storeEmail (h : EmailOrder s log) (email : String) (carriedOut : Bool) :
    EmailOrder (s.storeEmail email carriedOut).1 log := by
  rw [EmailStore.storeEmail]
  split
  · exact ⟨h.nodup, h.rows, h.laws.once, by simp⟩
  · exact h

/-- A token that is minted is outstanding. -/
theorem EmailOrder.mint (h : EmailOrder s log) {calls : MintCalls}
    (hmint : s.createEmailToken kind calls = (s', .ok token)) :
    EmailOrder s' (.issued ⟨token, kind, s.email, calls.now + 3600⟩ :: log) := by
  obtain ⟨hnew, rfl⟩ := EmailStore.createEmailToken_eq_ok hmint
  refine ⟨?_, fun row hrow => ?_, h.laws.once.issued _, fun hc => (h.laws.confirmed hc).cons _⟩
  · rw [List.map_append, List.nodup_append_comm]
    exact List.nodup_cons.mpr ⟨hnew, h.nodup⟩
  · rcases List.mem_append.mp hrow with hrow | hrow
    · have hne : token ≠ row.token := fun heq => hnew (heq ▸ List.mem_map_of_mem hrow)
      rw [outstanding, if_neg hne]
      exact h.rows row hrow
    · obtain rfl := List.mem_singleton.mp hrow
      exact ⟨_, by rw [outstanding, if_pos rfl], rfl, rfl⟩

/-- A token that is accepted was outstanding, and it is no longer. -/
theorem EmailOrder.accept (h : EmailOrder s log) {calls : VerifyCalls} (hsound : calls.Sound)
    (hown : kind = "confirm" → ∀ issue ∈ outstanding log token, issue.kind = "confirm" →
      calls.now < issue.expiresAt → issue.address = s.email)
    (hverify : s.verifyEmailToken kind token calls = (s', .ok ())) :
    EmailOrder s' (.accepted kind token calls.now :: log) := by
  obtain ⟨hprepared, hchanges, rfl⟩ := EmailStore.verifyEmailToken_eq_ok hverify
  have hdeleted : calls.deleted = true := by
    rcases hsound hprepared with hdeleted | hzero
    · exact hdeleted
    · by_contra hnot
      rw [EmailStore.changesAfter, if_neg hnot] at hchanges
      omega
  rw [EmailStore.changesAfter, if_pos hdeleted, List.countP_pos_iff] at hchanges
  obtain ⟨row, hmem, hadmits⟩ := hchanges
  obtain ⟨⟨rfl, rfl⟩, hexpires⟩ : (row.token = token ∧ row.kind = kind) ∧
      calls.now < row.expiresAt := by simpa [EmailToken.admits] using hadmits
  obtain ⟨issue, hissue, hkind, hexpiresAt⟩ := h.rows row hmem
  have haccepted : ∃ issue, outstanding log row.token = some issue ∧ issue.kind = row.kind ∧
      calls.now < issue.expiresAt := ⟨issue, hissue, hkind, by rw [hexpiresAt]; exact hexpires⟩
  refine ⟨?_, fun other hother => ?_, h.laws.once.accepted haccepted, fun hc => ?_⟩
  · exact h.nodup.sublist ((EmailStore.rowsAfter_sublist calls).map _)
  · rw [EmailStore.rowsAfter, if_pos hdeleted] at hother
    obtain ⟨hother, hnot⟩ := List.mem_filter.mp hother
    -- Another row is another token.
    have hne : row.token ≠ other.token := by
      intro heq
      obtain rfl := List.inj_on_of_nodup_map h.nodup hmem hother heq
      simp [hadmits] at hnot
    rw [outstanding, if_neg hne]
    exact h.rows other hother
  · rcases Bool.or_eq_true_iff.mp hc with hc | hc
    · exact (h.laws.confirmed hc).cons _
    · have hconfirm : row.kind = "confirm" := by simpa using (Bool.and_eq_true_iff.mp hc).1
      refine ⟨[], row.token, calls.now, log, issue, by rw [hconfirm]; rfl, hissue,
        hkind.trans hconfirm, ?_⟩
      exact hown hconfirm issue hissue (hkind.trans hconfirm) (by rw [hexpiresAt]; exact hexpires)

/-! ## What a request does -/

/-- The ways in which a request can end. -/
inductive EmailEvent.Effect (s : EmailStore) (ev : EmailEvent) : EmailReply → Prop
  | dropped {s' : EmailStore} {answer : Except RouteError Unit}
      (htokens : s'.tokens.Sublist s.tokens) (hemail : s'.email = s.email)
      (hconfirmed : s'.emailConfirmed = s.emailConfirmed) : Effect s ev ⟨s', answer, none, none⟩
  | replaced {s' : EmailStore} {answer : Except RouteError Unit} (email : String) (b : Bool)
      (htokens : s'.tokens.Sublist (s.storeEmail email b).1.tokens)
      (hemail : s'.email = (s.storeEmail email b).1.email)
      (hconfirmed : s'.emailConfirmed = (s.storeEmail email b).1.emailConfirmed) :
      Effect s ev ⟨s', answer, none, none⟩
  | minted {s' : EmailStore} {answer : Except RouteError Unit} {token : String}
      {calls : MintCalls} (hmint : s.createEmailToken ev.kind calls = (s', .ok token))
      (hnow : ev.mintNow = calls.now) : Effect s ev ⟨s', answer, some token, none⟩
  | spent {s' : EmailStore} {answer : Except RouteError Unit} {token : String}
      {calls : VerifyCalls} (hverify : s.verifyEmailToken ev.kind token calls = (s', .ok ()))
      (hcalls : ev.verify = some calls)
      (hown : ev.kind = "confirm" → ∃ params calls, ev = .confirm params calls ∧
        nonEmptyParam params "token" = some token) : Effect s ev ⟨s', answer, none, some token⟩
  | replacedFor {s' : EmailStore} {answer : Except RouteError Unit} {token : String}
      {calls : VerifyCalls} (email : String) (b : Bool)
      (hverify : s.verifyEmailToken ev.kind token calls = (s', .ok ()))
      (hcalls : ev.verify = some calls) (hkind : ev.kind ≠ "confirm") :
      Effect s ev ⟨(s'.storeEmail email b).1, answer, none, some token⟩

/-- A request that changes nothing. -/
theorem EmailEvent.Effect.same (s : EmailStore) (ev : EmailEvent)
    (answer : Except RouteError Unit) : ev.Effect s ⟨s, answer, none, none⟩ :=
  .dropped (List.Sublist.refl _) rfl rfl

theorem EmailEvent.Effect.mintAndMail (s : EmailStore) (ev : EmailEvent) (calls : EmailCalls)
    (notCreated notSent : String) (hnow : ev.mintNow = calls.mint.now) :
    ev.Effect s (mintAndMail s ev.kind notCreated notSent calls) := by
  rw [Account.mintAndMail]
  cases hmint : s.createEmailToken ev.kind calls.mint with
  | mk s' r =>
    cases r with
    | error e =>
      obtain rfl := EmailStore.createEmailToken_eq_error hmint
      exact .same _ ev _
    | ok token =>
      dsimp only
      split_ifs <;> exact .minted hmint hnow

/-- A confirmation is refused, or spends its token. -/
theorem EmailEvent.effect_confirm {s : EmailStore} {params : Option Json} {calls : EmailCalls} :
    (EmailEvent.confirm params calls).Effect s ((EmailEvent.confirm params calls).reply s) := by
  rw [reply, confirmEmail]
  cases nonEmptyParam params "email" with
  | none => split_ifs <;> exact .same s _ _
  | some email =>
    cases htoken : nonEmptyParam params "token" with
    | none => split_ifs <;> exact .same s _ _
    | some token =>
      by_cases hresolved : calls.resolved = false
      · rw [if_pos hresolved]
        exact .same s _ _
      rw [if_neg hresolved]
      dsimp only
      cases hverify : s.verifyEmailToken "confirm" token calls.verify with
      | mk s' r =>
        cases r with
        | error e =>
          obtain ⟨htokens, hemail, hconfirmed⟩ := EmailStore.verifyEmailToken_eq_error hverify
          exact .dropped htokens hemail hconfirmed
        | ok u => exact .spent hverify rfl fun _ => ⟨params, calls, rfl, htoken⟩

/-- An update replaces the address, with a token where the address was confirmed. -/
theorem EmailEvent.effect_update {s : EmailStore} {params : Option Json} {calls : EmailCalls} :
    (EmailEvent.update params calls).Effect s ((EmailEvent.update params calls).reply s) := by
  rw [reply, updateEmail]
  cases nonEmptyParam params "email" with
  | none => split_ifs <;> exact .same s _ _
  | some email =>
    have hreplace : ∀ s' spent, replaceEmail s' email calls spent =
        ⟨(s'.storeEmail email calls.emailStored).1,
          (replaceEmail s' email calls spent).answer, none, spent⟩ := by
      intro s' spent
      rw [replaceEmail]
      rcases s'.storeEmail email calls.emailStored with ⟨s'', e | u⟩ <;> rfl
    split_ifs
    · exact .same s _ _
    · cases nonEmptyParam params "token" with
      | none => exact .same s _ _
      | some token =>
        dsimp only
        cases hverify : s.verifyEmailToken "update" token calls.verify with
        | mk s' r =>
          cases r with
          | error e =>
            obtain ⟨htokens, hemail, hconfirmed⟩ := EmailStore.verifyEmailToken_eq_error hverify
            exact .dropped htokens hemail hconfirmed
          | ok u =>
            dsimp only
            rw [hreplace]
            exact .replacedFor email calls.emailStored hverify rfl (by simp [kind])
    · dsimp only
      rw [hreplace]
      exact .replaced email calls.emailStored (List.Sublist.refl _) rfl rfl

theorem EmailEvent.effect_spend {s : EmailStore} {purpose : OtherPurpose} {token : String}
    {calls : VerifyCalls} : (EmailEvent.spend purpose token calls).Effect s
      ((EmailEvent.spend purpose token calls).reply s) := by
  rw [reply]
  cases hverify : s.verifyEmailToken purpose.kind token calls with
  | mk s' r =>
    cases r with
    | error e =>
      obtain ⟨htokens, hemail, hconfirmed⟩ := EmailStore.verifyEmailToken_eq_error hverify
      exact .dropped htokens hemail hconfirmed
    | ok u =>
      refine .spent hverify rfl fun hkind => ?_
      cases purpose <;> simp [kind, OtherPurpose.kind] at hkind

/-- Every request ends in one of these ways. -/
theorem EmailEvent.effect (s : EmailStore) (ev : EmailEvent) : ev.Effect s (ev.reply s) := by
  cases ev with
  | create email b =>
    exact .replaced email b (List.Sublist.refl _) rfl rfl
  | requestConfirmation calls =>
    rw [reply, requestEmailConfirmation]
    have hmint := Effect.mintAndMail s (.requestConfirmation calls) calls
      "Could not create confirmation token" "Could not send confirmation email" rfl
    cases calls.limited with
    | some retryAfter => split_ifs <;> exact .same s _ _
    | none =>
      cases s.getEmail calls.emailRead with
      | none => split_ifs <;> exact .same s _ _
      | some address =>
        split_ifs
        · exact .same s _ _
        · exact .same s _ _
        · exact hmint
  | requestUpdate calls =>
    rw [reply, requestEmailUpdate]
    have hmint := Effect.mintAndMail s (.requestUpdate calls) calls
      "Could not create update token" "Could not send update email" rfl
    cases calls.limited with
    | some retryAfter => split_ifs <;> exact .same s _ _
    | none =>
      cases s.getEmail calls.emailRead with
      | none => split_ifs <;> exact .same s _ _
      | some address =>
        split_ifs
        · exact .same s _ _
        · exact hmint
  | confirm params calls => exact effect_confirm
  | update params calls => exact effect_update
  | adminUpdate email calls =>
    refine .replaced email calls.emailStored ?_ ?_ ?_ <;>
      simp only [EmailStore.deleteAllEmailTokens] <;> split <;> simp
  | mint purpose calls =>
    rw [reply]
    cases hmint : s.createEmailToken purpose.kind calls with
    | mk s' r =>
      cases r with
      | error e =>
        obtain rfl := EmailStore.createEmailToken_eq_error hmint
        exact .same _ _ _
      | ok token => exact .minted hmint rfl
  | spend purpose token calls => exact effect_spend
  | deleteTokens purpose b =>
    refine .dropped ?_ ?_ ?_ <;> simp only [EmailStore.deleteEmailTokensByKind] <;> split <;> simp

/-- Every request that meets the condition keeps the order. -/
theorem EmailOrder.step {h : EmailHistory} (ho : EmailOrder h.store h.log) {ev : EmailEvent}
    (hev : ConfirmsOwnAddress h ev) : EmailOrder (h.step ev).store (h.step ev).log := by
  have heffect := ev.effect h.store
  rw [EmailHistory.step, EmailEvent.entries]
  dsimp only
  generalize ev.reply h.store = r at heffect
  cases heffect with
  | dropped htokens hemail hconfirmed => exact ho.drop htokens hemail hconfirmed
  | replaced email b htokens hemail hconfirmed =>
    exact (ho.storeEmail email b).drop htokens hemail hconfirmed
  | minted hmint hnow =>
    rw [hnow]
    exact ho.mint hmint
  | spent hverify hcalls hown =>
    rw [hcalls]
    refine ho.accept (hev.1 _ hcalls) (fun hkind issue hissue hconfirm hnow => ?_) hverify
    obtain ⟨params, calls, rfl, htoken⟩ := hown hkind
    obtain rfl := Option.some.inj hcalls
    exact hev.2 _ htoken issue hissue hconfirm hnow
  | replacedFor email b hverify hcalls hkind =>
    rw [hcalls]
    exact (ho.accept (hev.1 _ hcalls) (fun hc => absurd hc hkind) hverify).storeEmail email b

/-! ## Every run -/

/-- While no token that was mailed to another address is presented to confirm one, an address is
confirmed by a token of its own, and every token is accepted once, for its purpose and in time. -/
theorem email_laws (run : List EmailEvent)
    (h : Steps EmailHistory.step ConfirmsOwnAddress ⟨EmailStore.new, []⟩ run) :
    States EmailHistory.step EmailLaws ⟨EmailStore.new, []⟩ run :=
  (states_of_steps (P := fun h => EmailOrder h.store h.log) emailOrder_new
    (fun _ _ ho hev => ho.step hev) h).imp fun _ ho => ho.laws

/-! ## A token of the old address -/

/-- A request at a time when everything is carried out. -/
def exampleEmailCalls (now : Int) : EmailCalls where
  resolved := true
  limited := none
  emailRead := true
  mint := ⟨some "c0ffee", true, true, now⟩
  mailed := true
  verify := ⟨true, true, 0, true, now⟩
  emailStored := true
  tokensDeleted := true
  answered := true

/-- The body of a request about an address. -/
def exampleEmailParams (email token : String) : Option Json :=
  some (.object [("email", .string email), ("token", .string token)])

/-- An account that asks for its confirmation. -/
def exampleEmailRun : List EmailEvent :=
  [.create "a@mail.test" true, .requestConfirmation (exampleEmailCalls 0)]

/-- The token is presented, and the address is confirmed. -/
theorem confirmed_by_its_own_token : States EmailHistory.step EmailLaws ⟨EmailStore.new, []⟩
    (exampleEmailRun ++ [.confirm (exampleEmailParams "a@mail.test" "c0ffee")
      (exampleEmailCalls 60)]) := by
  refine email_laws _ ⟨⟨by simp [EmailEvent.verify], trivial⟩,
    ⟨by simp [EmailEvent.verify], trivial⟩, ⟨?_, ?_⟩, trivial⟩
  · rintro _ ⟨rfl⟩ -
    exact Or.inl rfl
  · rintro _ ⟨rfl⟩ issue hissue - -
    obtain rfl := Option.some.inj hissue
    rfl

/-- The address changes before the token is presented, and the new address is confirmed by it. -/
theorem confirmed_by_the_token_of_another_address :
    ¬ States EmailHistory.step EmailLaws ⟨EmailStore.new, []⟩
      (exampleEmailRun ++
        [.update (exampleEmailParams "b@mail.test" "") (exampleEmailCalls 30),
          .confirm (exampleEmailParams "b@mail.test" "c0ffee") (exampleEmailCalls 60)]) := by
  intro h
  have hfinal : exec EmailHistory.step ⟨EmailStore.new, []⟩ (exampleEmailRun ++
      [.update (exampleEmailParams "b@mail.test" "") (exampleEmailCalls 30),
        .confirm (exampleEmailParams "b@mail.test" "c0ffee") (exampleEmailCalls 60)]) =
      ⟨⟨some "b@mail.test", true, []⟩, [.accepted "confirm" "c0ffee" 60,
        .issued ⟨"c0ffee", "confirm", some "a@mail.test", 3600⟩]⟩ := by decide
  have hlaws := h.exec
  rw [hfinal] at hlaws
  obtain ⟨later, token, now, earlier, issue, hlog, hissue, -, haddress⟩ := hlaws.confirmed rfl
  rcases later with _ | ⟨entry, _ | ⟨entry', later⟩⟩
  · obtain ⟨⟨rfl, rfl⟩, rfl⟩ := by simpa using hlog
    obtain rfl := Option.some.inj hissue
    exact absurd haddress (by decide)
  · simp at hlog
  · simp at hlog

end MetalBear.Account
