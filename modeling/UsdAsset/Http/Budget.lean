import Mathlib.Tactic.Linarith
import Mathlib.Tactic.Ring
import UsdAsset.Http.Lifetime

/-!
# The work of one logical operation

The retry budget belongs to the whole operation, the redirect counter to one
exchange.  An open is one exchange and stays within the sum of the two.  A read
makes a new exchange for every resume, and each of them may follow as many
redirects again: the bound it meets is the product `maxAttempts` times
`maxRedirects + 1`, and a server that redirects every resume reaches it.
-/

namespace UsdAsset.Http

open ByteString

/-- How many requests were handed to the transport between two points. -/
def Wire.performs (before after : Wire) : ℕ := after.trace.length - before.trace.length

theorem Wire.performs_of_trace {before after : Wire} {sent : List Sent}
    (traceEq : after.trace = before.trace ++ sent) : before.performs after = sent.length := by
  simp [performs, traceEq]

theorem Wire.performs_add {before middle after : Wire} {sent : List Sent}
    (first : middle.trace = before.trace ++ sent) (second : middle.trace <+: after.trace) :
    before.performs after = sent.length + middle.performs after := by
  have := second.length_le
  simp only [performs, first, List.length_append] at this ⊢
  omega

theorem httpOpen_performs_le (url : Bytes) (options : HttpOptions) (transport : Transport)
    (wire : Wire) :
    wire.performs (httpOpen url options (some transport) wire).2 ≤
      options.maxRedirects.toNat + options.retryBudget + 1 := by
  cases parsed : parseUri url with
  | error error => simp [httpOpen, parsed, Wire.performs]
  | ok uri =>
    rcases httpOpen_run parsed options transport wire with ⟨exchange, left, sent, run⟩
    rw [Wire.performs_of_trace run.trace_eq]
    have := run.spent
    omega

namespace HttpAssetReader

theorem readLoop_performs_le (reader : HttpAssetReader) (transport : Transport)
    (offset size length budget retries done : ℕ) (wire : Wire) :
    wire.performs (reader.readLoop transport offset size length budget retries done wire).2 ≤
      (retries + 1) * (reader.options.maxRedirects.toNat + 1) := by
  induction budget using Nat.strongRecOn generalizing retries done wire with
  | _ budget ih =>
    rcases ExchangeArgs.performExchange_run (reader.readArgs transport offset length done)
      reader.uri retries wire with ⟨sent, run⟩
    rcases exchanged : (reader.readArgs transport offset length done).performExchange reader.uri
      retries wire with ⟨exchange, left, after⟩
    rw [exchanged] at run
    have made := Wire.performs_of_trace run.trace_eq
    have spent : sent.length + left ≤ retries + reader.options.maxRedirects.toNat + 1 :=
      run.spent
    have left_le : left ≤ retries := run.left_le
    simp only at made
    have within : sent.length ≤ (retries + 1) * (reader.options.maxRedirects.toNat + 1) := by
      nlinarith
    rcases readLoop_cases exchanged size budget with
      ends | ⟨fewer, less, more, _, rfl, rfl, _, resumes⟩
    · rw [ends]
      exact made.le.trans within
    · rw [resumes]
      have resumed := ih fewer (Nat.lt_succ_self fewer) less more after.countRetry
      have kept := reader.readLoop_trace_prefix transport offset size length fewer less more
        after.countRetry
      have first : after.countRetry.trace = wire.trace ++ sent := run.trace_eq
      rw [Wire.performs_add first kept]
      nlinarith

theorem read_performs_le (reader : HttpAssetReader) (transport : Transport) (offset : ℕ)
    (dstIsNull : Bool) (size : ℕ) (wire : Wire) :
    wire.performs (reader.read transport offset dstIsNull size wire).2 ≤
      (reader.options.retryBudget + 1) * (reader.options.maxRedirects.toNat + 1) := by
  simp only [read]
  split
  · simp [Wire.performs]
  · split
    · simp [Wire.performs]
    · split
      · simp [Wire.performs]
      · exact reader.readLoop_performs_le ..

end HttpAssetReader

/-! ### A server that redirects every resume -/

/-- A partial response whose body stopped before its first byte. -/
def emptyPartial : TransportResponse :=
  { status := 206
    headers := ⟨[(bytes "Content-Range", bytes "bytes 0-0/1")]⟩
    error := .incompleteBody }

def detour : TransportResponse :=
  { status := 302, headers := ⟨[(bytes "Location", bytes "/a")]⟩ }

/-- Describes a one-byte asset, and answers every range request with `hops` detours first. -/
def detouringServer (hops : ℕ) : Transport where
  perform time request :=
    match request.method with
    | .head =>
        { status := 200
          headers := ⟨[(bytes "Content-Length", bytes "1"),
            (bytes "Accept-Ranges", bytes "bytes")]⟩ }
    | .get => if time % (hops + 1) = 0 then emptyPartial else detour
  body_le_capacity := by
    intro time request
    cases request.method with
    | head => simp
    | get =>
        dsimp only
        split <;> simp [emptyPartial, detour]

def detouredOptions (maxRedirects maxAttempts : ℕ) : HttpOptions :=
  { maxRedirects, maxAttempts }

def detouredReader (maxRedirects maxAttempts : ℕ) : HttpAssetReader where
  options := detouredOptions maxRedirects maxAttempts
  origin := letterUri
  uri := letterUri
  metadata :=
    { resolvedIdentifier := bytes "http://host/a"
      size := 1
      supportsRandomAccess := true }
  ifRangeValue := []

section Detour

variable (maxRedirects maxAttempts : ℕ)

def detouredOpenArgs : ExchangeArgs :=
  openArgs (detouringServer maxRedirects) (detouredOptions maxRedirects maxAttempts) letterUri

def detouredWire : Wire :=
  Wire.push {} ((detouredOpenArgs maxRedirects maxAttempts).send 0 letterUri [])

theorem detouredReader_opened :
    httpOpen (bytes "http://host/a") (detouredOptions maxRedirects maxAttempts)
        (some (detouringServer maxRedirects)) {} =
      (.ok (detouredReader maxRedirects maxAttempts), detouredWire maxRedirects maxAttempts) := by
  have parsed : parseUri (bytes "http://host/a") = .ok letterUri := by decide +kernel
  have attempts (retries : ℕ) :
      (detouredOpenArgs maxRedirects maxAttempts).attemptLoop 0 letterUri retries 1 {} =
        (.ok ((detouredOpenArgs maxRedirects maxAttempts).send 0 letterUri []).response, retries,
          detouredWire maxRedirects maxAttempts) :=
    ExchangeArgs.attemptLoop_answered rfl (Or.inr rfl)
  have exchanged (hops retries : ℕ) :
      (detouredOpenArgs maxRedirects maxAttempts).hopLoop hops 0 letterUri retries {} =
        ({ response := ((detouredOpenArgs maxRedirects maxAttempts).send 0 letterUri []).response
           finalUri := letterUri }, retries, detouredWire maxRedirects maxAttempts) :=
    ExchangeArgs.hopLoop_finished rfl (attempts retries) rfl
  exact httpOpen_described parsed (exchanged _ _) rfl

def detouredArgs : ExchangeArgs :=
  (detouredReader maxRedirects maxAttempts).readArgs (detouringServer maxRedirects) 0 1 0

theorem detouredArgs_attempts (redirects retries : ℕ) (wire : Wire) :
    (detouredArgs maxRedirects maxAttempts).attemptLoop redirects letterUri retries 1 wire =
      (.ok (if wire.time % (maxRedirects + 1) = 0 then emptyPartial else detour), retries,
        wire.push ((detouredArgs maxRedirects maxAttempts).send wire.time letterUri [])) := by
  rw [ExchangeArgs.attemptLoop_answered rfl]
  · rfl
  · right
    change isRetryable (if wire.time % (maxRedirects + 1) = 0 then emptyPartial else detour) = false
    split <;> rfl

theorem detouredArgs_hops (hops redirects retries : ℕ) (wire : Wire) (within : hops ≤ maxRedirects)
    (aligned : (maxRedirects + 1) ∣ wire.time + hops) :
    ∃ after, (detouredArgs maxRedirects maxAttempts).hopLoop hops redirects letterUri retries wire =
        ({ response := emptyPartial, finalUri := letterUri }, retries, after) ∧
      after.time = wire.time + hops + 1 := by
  induction hops generalizing redirects wire with
  | zero =>
    have attempts := detouredArgs_attempts maxRedirects maxAttempts redirects retries wire
    have now : (maxRedirects + 1) ∣ wire.time := aligned
    rw [if_pos (Nat.mod_eq_zero_of_dvd now)] at attempts
    exact ⟨_, ExchangeArgs.hopLoop_finished rfl attempts rfl, by simp [Wire.time]⟩
  | succ hops ih =>
    have attempts := detouredArgs_attempts maxRedirects maxAttempts redirects retries wire
    have detoured : ¬wire.time % (maxRedirects + 1) = 0 := by
      intro early
      have divides := (Nat.dvd_add_right (Nat.dvd_of_mod_eq_zero early)).mp aligned
      have := Nat.le_of_dvd (Nat.succ_pos hops) divides
      omega
    rw [if_neg detoured] at attempts
    rw [ExchangeArgs.hopLoop_redirected rfl attempts
      (show _ = ExchangeArgs.HopOutcome.redirected letterUri from rfl)]
    have pushed (sent : Sent) : (wire.push sent).countRedirect.time = wire.time + 1 := by
      simp [Wire.time]
    rcases ih (redirects + 1)
      (wire.push ((detouredArgs maxRedirects maxAttempts).send wire.time letterUri
        [])).countRedirect (by omega) (by rwa [pushed, Nat.add_assoc, Nat.add_comm 1 hops])
      with ⟨after, exchanged, time⟩
    refine ⟨after, exchanged, ?_⟩
    rw [time, pushed]
    omega

theorem detoured_readLoop_time (retries : ℕ) (wire : Wire)
    (aligned : (maxRedirects + 1) ∣ wire.time + maxRedirects) :
    ((detouredReader maxRedirects maxAttempts).readLoop (detouringServer maxRedirects) 0 1 1 retries
        retries 0 wire).2.time = wire.time + (retries + 1) * (maxRedirects + 1) := by
  induction retries generalizing wire with
  | zero =>
    rcases detouredArgs_hops maxRedirects maxAttempts maxRedirects 0 0 wire le_rfl aligned with
      ⟨after, exchanged, time⟩
    rw [HttpAssetReader.readLoop_spent exchanged
      (show _ = HttpAssetReader.ReadStep.advanced 0 .incompleteBody from rfl) Nat.one_pos
      (Or.inl rfl)]
    rw [time]
    omega
  | succ retries ih =>
    rcases detouredArgs_hops maxRedirects maxAttempts maxRedirects 0 (retries + 1) wire le_rfl
      aligned with ⟨after, exchanged, time⟩
    rw [HttpAssetReader.readLoop_resumed exchanged
      (show _ = HttpAssetReader.ReadStep.advanced 0 .incompleteBody from rfl) Nat.one_pos]
    have time : after.countRetry.time = wire.time + maxRedirects + 1 := time
    rw [ih after.countRetry, time]
    · ring
    · rw [time, show wire.time + maxRedirects + 1 + maxRedirects =
        wire.time + maxRedirects + (maxRedirects + 1) by omega]
      exact Nat.dvd_add aligned dvd_rfl

theorem retryBudget_detouredOptions :
    (detouredOptions maxRedirects maxAttempts).retryBudget = maxAttempts - 1 := by
  simp only [HttpOptions.retryBudget, detouredOptions, gt_iff_lt]
  by_cases attempted : (0 : Int) < maxAttempts
  · rw [if_pos attempted]
    omega
  · rw [if_neg attempted]
    omega

theorem detoured_read_performs (attempted : 1 ≤ maxAttempts) :
    (detouredWire maxRedirects maxAttempts).performs
        ((detouredReader maxRedirects maxAttempts).read (detouringServer maxRedirects) 0 false 1
          (detouredWire maxRedirects maxAttempts)).2 =
      maxAttempts * (maxRedirects + 1) := by
  have looped := detoured_readLoop_time maxRedirects maxAttempts (maxAttempts - 1)
    (detouredWire maxRedirects maxAttempts) (by rw [Nat.add_comm]; exact dvd_rfl)
  rw [Nat.sub_add_cancel attempted] at looped
  have started : (detouredReader maxRedirects maxAttempts).read (detouringServer maxRedirects) 0
      false 1 (detouredWire maxRedirects maxAttempts) =
        (detouredReader maxRedirects maxAttempts).readLoop (detouringServer maxRedirects) 0 1 1
          (maxAttempts - 1) (maxAttempts - 1) 0 (detouredWire maxRedirects maxAttempts) := by
    rw [← retryBudget_detouredOptions maxRedirects]
    rfl
  rw [started]
  simp only [Wire.performs, Wire.time] at looped ⊢
  omega

end Detour

/-! ### The bound on an operation -/

/-- No open and no read makes more requests than the two options add up to. -/
def StaysWithinBudget (options : HttpOptions) : Prop :=
  ∀ (url : Bytes) (transport : Transport) (wire : Wire),
    (wire.performs (httpOpen url options (some transport) wire).2 : Int) ≤
        options.maxRedirects + options.maxAttempts ∧
      ∀ reader opened, httpOpen url options (some transport) wire = (.ok reader, opened) →
        ∀ (offset size : ℕ) (dstIsNull : Bool) (now : Wire),
          (now.performs (reader.read transport offset dstIsNull size now).2 : Int) ≤
            options.maxRedirects + options.maxAttempts

/-- With the default options one read of one byte can take eighteen requests, not eight. -/
theorem default_read_exceeds_budget :
    let server := detouringServer 5
    let opened := httpOpen (bytes "http://host/a") {} (some server) {}
    opened = (.ok (detouredReader 5 3), detouredWire 5 3) ∧
      (detouredWire 5 3).performs
          ((detouredReader 5 3).read server 0 false 1 (detouredWire 5 3)).2 = 18 ∧
      ({} : HttpOptions).maxRedirects + ({} : HttpOptions).maxAttempts = 8 := by
  intro server opened
  exact ⟨detouredReader_opened 5 3, detoured_read_performs 5 3 (by decide), rfl⟩

theorem retryBudget_add_one {options : HttpOptions} (attempted : 1 ≤ options.maxAttempts) :
    ((options.retryBudget + 1 : ℕ) : Int) = options.maxAttempts := by
  unfold HttpOptions.retryBudget
  rw [if_pos (by omega)]
  omega

/--
The options add up to a bound for every operation exactly when there is nothing
to follow or nothing to resume.
-/
theorem staysWithinBudget_iff (maxRedirects maxAttempts : Int) (redirected : 0 ≤ maxRedirects)
    (attempted : 1 ≤ maxAttempts) :
    (∀ options : HttpOptions, options.maxRedirects = maxRedirects →
        options.maxAttempts = maxAttempts → StaysWithinBudget options) ↔
      maxRedirects = 0 ∨ maxAttempts = 1 := by
  constructor
  · intro within
    obtain ⟨redirects, rfl⟩ := Int.eq_ofNat_of_zero_le redirected
    obtain ⟨attempts, rfl⟩ := Int.eq_ofNat_of_zero_le (by omega : 0 ≤ maxAttempts)
    have bounded := (within (detouredOptions redirects attempts) rfl rfl _ _ _).2 _ _
      (detouredReader_opened redirects attempts) 0 1 false (detouredWire redirects attempts)
    rw [detoured_read_performs redirects attempts (by omega)] at bounded
    have bounded : attempts * (redirects + 1) ≤ redirects + attempts := by
      simp only [detouredOptions] at bounded
      exact_mod_cast bounded
    by_contra neither
    have : 1 ≤ redirects := by omega
    have : 2 ≤ attempts := by omega
    nlinarith
  · rintro single options rfl rfl url transport wire
    have budget := retryBudget_add_one attempted
    constructor
    · have := httpOpen_performs_le url options transport wire
      omega
    · intro reader opened opens offset size dstIsNull now
      rcases httpOpen_opened opens with ⟨_, _, _, _, capture⟩
      have := reader.read_performs_le transport offset dstIsNull size now
      rw [capture.options_eq] at this
      rcases single with noRedirects | oneAttempt
      · rw [noRedirects] at this
        simp only [Int.toNat_zero, Nat.zero_add, Nat.mul_one] at this
        omega
      · have noRetries : options.retryBudget = 0 := by omega
        rw [noRetries, Nat.zero_add, Nat.one_mul] at this
        omega

theorem staysWithinBudget_of_one_attempt :
    StaysWithinBudget { maxRedirects := 5, maxAttempts := 1 } :=
  (staysWithinBudget_iff 5 1 (by decide) (by decide)).mpr (Or.inr rfl) _ rfl rfl

end UsdAsset.Http
