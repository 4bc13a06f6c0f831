import Nodeglow.Agent.SyslogRelay.Relay
import Nodeglow.Agent.Updater.Authorize

/-!
# The latched trust of the updater

The trust mode of an agent follows what the server has reported, and only ever tightens: once any
answer has said that the installation is multi-tenant, or that the agent is a probe, no later
answer relaxes it. The latch lives in memory and in a state file next to the configuration, which
is read again after a restart; a file that cannot be read counts as the strictest state.

An agent (`Agent`) takes the answers of the server in any order: heartbeats
(`Agent.observeReport`) and update checks (`checkAndUpdate`), between which it may restart and its
state file may become unreadable. The server chooses every field of every answer, and every byte of
every binary. JSON is given by its two functions, of which the results use that reading a written
state gives it back.

## Main results

* `Agent.Safe.step` — the state file is never less strict than the memory, and neither relaxes.
* `Agent.applied_signed` — which signatures the applied binaries carry.

Source: `agent/src/updater.rs`, lines 239–370; `agent/src/main.rs`, lines 97–222;
`agent/src/client.rs`, lines 75–108.
-/

namespace Nodeglow.Updater

open SyslogRelay (RelayConfig RelayValue)

/-! ### The latch -/

/-- Latched trust state; the fields only ever go from false to true. -/
structure TrustState where
  multiTenant : Bool
  probe : Bool
  deriving DecidableEq, Repr

/-- The state file next to the configuration. -/
inductive StateFile
  | absent
  | unreadable
  | text (contents : String)
  deriving DecidableEq, Repr

/-- Writing and reading a trust state as JSON. -/
structure Json where
  toJson : TrustState → String
  fromJson : String → Option TrustState

namespace TrustState

/-- The state that requires release-signed updates. -/
def strict : TrustState := ⟨true, true⟩

/-- Load the state: a missing file is the empty state, and a file that cannot be read or parsed
fails closed. -/
def load (J : Json) : StateFile → TrustState
  | .absent => ⟨false, false⟩
  | .unreadable => strict
  | .text s => (J.fromJson s).getD strict

/-- Fold in what the server said. -/
def latch (s : TrustState) (multiTenant probe : Bool) : TrustState :=
  ⟨s.multiTenant || multiTenant, s.probe || probe⟩

/-- Latch, and write the state file on a change. -/
def observe (J : Json) (s : TrustState × StateFile) (multiTenant probe : Bool) :
    TrustState × StateFile :=
  let s' := s.1.latch multiTenant probe
  if s' ≠ s.1 then (s', .text (J.toJson s')) else s

def mode (s : TrustState) (requireReleaseSignature : Bool) : TrustMode :=
  if requireReleaseSignature || s.multiTenant then .releaseOnly
  else if s.probe then .probe
  else .standard

end TrustState

/-! ### Answers of the server -/

/-- The server's answer to a version request. -/
structure VersionResponse where
  hash : String
  signature : Option String
  releaseSignature : Option String
  releaseKeyId : Option String
  multiTenant : Option Bool
  deriving DecidableEq, Repr

/-- The part of a heartbeat's configuration that bears on trust. -/
structure ServerConfig where
  multiTenant : Option Bool
  probe : Option Bool
  syslogRelay : Option RelayValue
  deriving DecidableEq, Repr

/-- The server's answer to a heartbeat; `checks` is the number of hosts it assigns. -/
structure ReportResponse where
  config : Option ServerConfig
  checks : Option ℕ
  deriving DecidableEq, Repr

/-- The answer tells the agent that it is a probe. -/
def ReportResponse.reportsProbe (r : ReportResponse) : Bool :=
  r.checks.any (0 < ·) ||
    r.config.any fun c => c.probe.getD false || (RelayConfig.fromServer c.syslogRelay).isSome

/-- What the updater of one agent is built and configured with. -/
structure Setup (K : Type) where
  crypto : Crypto K
  json : Json
  /-- The name of the platform the agent was built for. -/
  platform : String
  /-- The public keys compiled into the agent. -/
  releasePublicKeys : List String
  /-- The operator's key from the local configuration, empty if there is none. -/
  updatePublicKey : String
  requireReleaseSignature : Bool

/-- A binary that the updater applied. -/
structure Applied where
  version : VersionResponse
  data : List UInt8
  authorization : Authorization
  deriving DecidableEq, Repr

variable {K : Type} (E : Setup K)

/-- The release keys compiled into the agent. -/
def compiledReleaseKeys : List (TrustedKey K) := parseReleaseKeys E.crypto E.releasePublicKeys

def UpdateOffer.fromVersion (platform : String) (v : VersionResponse) : UpdateOffer :=
  ⟨platform, v.releaseSignature, v.releaseKeyId, v.signature⟩

/-- A non-empty hexadecimal text of even length. -/
def isHex (s : String) : Bool :=
  !s.isEmpty && s.length % 2 == 0 && s.toList.all fun c => (Text.hexValue c).isSome

theorem isHex_hexEncode {bytes : List UInt8} (h : bytes ≠ []) :
    isHex (Text.hexEncode bytes) = true := by
  have hlength : (Text.hexEncode bytes).length % 2 = 0 := by
    rw [← String.length_toList, Text.toList_hexEncode]
    simp [List.length_flatMap]
  have hall : (Text.hexEncode bytes).toList.all fun c => (Text.hexValue c).isSome := by
    rw [List.all_eq_true]
    intro c hc
    obtain ⟨n, hn, rfl⟩ := Text.exists_hexDigit_of_mem hc
    simp [Text.hexValue_hexDigit n hn]
  simp [isHex, hexEncode_ne_empty h, hlength, hall]

/-- The decision of an update check after the answer `v` has been latched: the binary to apply, if
the running one is another. A request or a read that failed has no value. -/
def decideUpdate (trust : TrustState) (v : VersionResponse) (exeData download : Option (List UInt8)) :
    Except UpdateError (Option Applied) :=
  let serverHash := Text.asciiLower (Text.trim v.hash)
  if !isHex serverHash then .error .invalidVersionHash
  else
    match exeData with
    | none => .error .io
    | some exe =>
        if sha256Hex E.crypto exe = serverHash then .ok none
        else
          match download with
          | none => .error .io
          | some data =>
              if sha256Hex E.crypto data ≠ serverHash then .error .hashMismatch
              else
                (authorizeUpdate E.crypto (trust.mode E.requireReleaseSignature)
                  (compiledReleaseKeys E) E.updatePublicKey
                  (UpdateOffer.fromVersion E.platform v) data).map fun a => some ⟨v, data, a⟩

/-- Check for an update: latch what the version answer says before deciding anything. -/
def checkAndUpdate (s : TrustState × StateFile) (version : Option VersionResponse)
    (exeData download : Option (List UInt8)) :
    (TrustState × StateFile) × Except UpdateError (Option Applied) :=
  match version with
  | none => (s, .error .io)
  | some v =>
      let s' := TrustState.observe E.json s (v.multiTenant.getD false) false
      (s', decideUpdate E s'.1 v exeData download)

variable {E}

/-- A binary that `decideUpdate` applies has the announced hash and was accepted by
`authorizeUpdate`, with the offer of the version answer. -/
theorem decideUpdate_some {trust : TrustState} {v : VersionResponse}
    {exeData download : Option (List UInt8)} {u : Applied}
    (h : decideUpdate E trust v exeData download = .ok (some u)) :
    sha256Hex E.crypto u.data = Text.asciiLower (Text.trim u.version.hash) ∧
      authorizeUpdate E.crypto (trust.mode E.requireReleaseSignature) (compiledReleaseKeys E)
        E.updatePublicKey (UpdateOffer.fromVersion E.platform u.version) u.data
          = .ok u.authorization := by
  unfold decideUpdate at h
  dsimp only at h
  split_ifs at h
  cases exeData with
  | none => exact absurd h (by simp)
  | some exe =>
    dsimp only at h
    split_ifs at h
    · exact absurd h (by simp)
    · cases download with
      | none => exact absurd h (by simp)
      | some data =>
        dsimp only at h
        split_ifs at h with hhash
        cases hauth : authorizeUpdate E.crypto (trust.mode E.requireReleaseSignature)
            (compiledReleaseKeys E) E.updatePublicKey (UpdateOffer.fromVersion E.platform v)
            data with
        | error err => simp [hauth, Except.map] at h
        | ok a =>
          simp only [hauth, Except.map, Except.ok.injEq, Option.some.injEq] at h
          subst h
          exact ⟨not_not.mp hhash, hauth⟩

variable (E)

/-! ### The life of an agent -/

/-- An agent: its trust in memory, its state file, and whether the process runs. -/
structure Agent where
  trust : TrustState
  file : StateFile
  running : Bool
  deriving DecidableEq, Repr

/-- What can happen to an agent. -/
inductive Event
  /-- A heartbeat was answered. -/
  | report (r : ReportResponse)
  /-- An update check, with the version answer, the running binary and the download. -/
  | check (version : Option VersionResponse) (exeData download : Option (List UInt8))
  /-- The process ends and is started again. -/
  | restart
  /-- The state file becomes unreadable, or a text that is no trust state. -/
  | spoilFile (contents : Option String)
  deriving DecidableEq, Repr

namespace Agent

/-- An agent that starts with the state file it finds. -/
def start (file : StateFile) : Agent := ⟨TrustState.load E.json file, file, true⟩

/-- What the main loop latches from a heartbeat answer. -/
def observeReport (s : Agent) (r : ReportResponse) : Agent :=
  match r.config with
  | some c =>
      let p := TrustState.observe E.json (s.trust, s.file) (c.multiTenant.getD false)
        r.reportsProbe
      { s with trust := p.1, file := p.2 }
  | none =>
      if r.reportsProbe then
        let p := TrustState.observe E.json (s.trust, s.file) false true
        { s with trust := p.1, file := p.2 }
      else s

/-- One event, and the binary it applied. An applied update ends the process. -/
def step (s : Agent) : Event → Option (Agent × Option Applied)
  | .report r => if s.running then some (s.observeReport E r, none) else none
  | .check version exeData download =>
      if s.running then
        let r := checkAndUpdate E (s.trust, s.file) version exeData download
        let applied : Option Applied := r.2.toOption.join
        some ({ trust := r.1.1, file := r.1.2, running := applied.isNone }, applied)
      else none
  | .restart => some (start E s.file, none)
  | .spoilFile none => some ({ s with file := .unreadable }, none)
  | .spoilFile (some t) =>
      if E.json.fromJson t = none then some ({ s with file := .text t }, none) else none

/-- The transition relation of `step`. -/
def Step (s : Agent) (e : Event) (s' : Agent) : Prop := ∃ applied, s.step E e = some (s', applied)

end Agent

/-- The event is an answer that says the installation is multi-tenant. -/
def Event.saysMultiTenant : Event → Bool
  | .report r => r.config.any fun c => c.multiTenant.getD false
  | .check version _ _ => version.any fun v => v.multiTenant.getD false
  | _ => false

/-- The event is an answer that tells the agent it is a probe. -/
def Event.saysProbe : Event → Bool
  | .report r => r.reportsProbe
  | _ => false

/-! ### The latch over a run -/

/-- The state `t` is at least as strict as `s`. -/
def TrustState.Le (s t : TrustState) : Prop :=
  (s.multiTenant = true → t.multiTenant = true) ∧ (s.probe = true → t.probe = true)

namespace TrustState

theorem Le.refl (s : TrustState) : s.Le s := ⟨id, id⟩

theorem Le.trans {s t u : TrustState} (h : s.Le t) (h' : t.Le u) : s.Le u :=
  ⟨h'.1 ∘ h.1, h'.2 ∘ h.2⟩

theorem le_strict (s : TrustState) : s.Le strict := ⟨fun _ => rfl, fun _ => rfl⟩

theorem le_latch (s : TrustState) (multiTenant probe : Bool) :
    s.Le (s.latch multiTenant probe) := by
  constructor <;> intro h <;> simp [latch, h]

theorem observe_fst (J : Json) (s : TrustState × StateFile) (multiTenant probe : Bool) :
    (observe J s multiTenant probe).1 = s.1.latch multiTenant probe := by
  simp only [observe]
  split_ifs with h
  · rfl
  · exact (not_not.mp h).symm

/-- A latched state is written before anything else happens, so the file stays as strict as the
memory. -/
theorem le_load_observe {J : Json} (hJ : ∀ t, J.fromJson (J.toJson t) = some t)
    {s : TrustState × StateFile} (h : s.1.Le (load J s.2)) (multiTenant probe : Bool) :
    (observe J s multiTenant probe).1.Le (load J (observe J s multiTenant probe).2) := by
  simp only [observe]
  split_ifs with hchange
  · simp only [load, hJ, Option.getD_some]
    exact Le.refl _
  · exact h

end TrustState

namespace Agent

variable {E}

/-- The state file is at least as strict as the memory. -/
def Safe (E : Setup K) (s : Agent) : Prop := s.trust.Le (TrustState.load E.json s.file)

theorem safe_start (file : StateFile) : Safe E (start E file) := TrustState.Le.refl _

/-- What a heartbeat answer says is latched, and nothing else. -/
theorem observeReport_eq (s : Agent) (r : ReportResponse) :
    s.observeReport E r =
      let p := TrustState.observe E.json (s.trust, s.file) (Event.report r).saysMultiTenant
        r.reportsProbe
      ⟨p.1, p.2, s.running⟩ := by
  cases hc : r.config with
  | some c => simp [observeReport, Event.saysMultiTenant, hc]
  | none =>
    cases hp : r.reportsProbe <;>
      simp [observeReport, Event.saysMultiTenant, hc, hp, TrustState.observe, TrustState.latch]

/-- **One event.** The file stays as strict as the memory, the memory never relaxes, and what an
answer says is latched when its event is over. -/
theorem Safe.step (hJ : ∀ t, E.json.fromJson (E.json.toJson t) = some t) {s s' : Agent}
    {e : Event} (h : Safe E s) (hstep : Step E s e s') :
    Safe E s' ∧ s.trust.Le s'.trust ∧
      (e.saysMultiTenant = true → s'.trust.multiTenant = true) ∧
      (e.saysProbe = true → s'.trust.probe = true) := by
  obtain ⟨applied, hstep⟩ := hstep
  have hobserve := TrustState.le_load_observe hJ (s := (s.trust, s.file)) h
  cases e with
  | report r =>
    simp only [Agent.step, Option.ite_none_right_eq_some, Option.some.injEq, Prod.mk.injEq]
      at hstep
    obtain ⟨-, rfl, -⟩ := hstep
    rw [observeReport_eq]
    refine ⟨hobserve _ _, ?_, ?_, ?_⟩ <;> simp only [TrustState.observe_fst]
    · exact TrustState.le_latch _ _ _
    · intro hm
      simp [TrustState.latch, hm]
    · intro hp
      simp [TrustState.latch, show r.reportsProbe = true from hp]
  | check version exeData download =>
    simp only [Agent.step, Option.ite_none_right_eq_some, Option.some.injEq, Prod.mk.injEq]
      at hstep
    obtain ⟨-, rfl, -⟩ := hstep
    cases version with
    | none => exact ⟨h, TrustState.Le.refl _, by simp [Event.saysMultiTenant],
        by simp [Event.saysProbe]⟩
    | some v =>
      refine ⟨hobserve _ _, ?_, ?_, by simp [Event.saysProbe]⟩ <;>
        simp only [checkAndUpdate, TrustState.observe_fst]
      · exact TrustState.le_latch _ _ _
      · intro hm
        simp [TrustState.latch, show v.multiTenant.getD false = true from hm]
  | restart =>
    simp only [Agent.step, Option.some.injEq, Prod.mk.injEq] at hstep
    obtain ⟨rfl, -⟩ := hstep
    exact ⟨safe_start _, h, by simp [Event.saysMultiTenant], by simp [Event.saysProbe]⟩
  | spoilFile contents =>
    cases contents with
    | none =>
      simp only [Agent.step, Option.some.injEq, Prod.mk.injEq] at hstep
      obtain ⟨rfl, -⟩ := hstep
      exact ⟨TrustState.le_strict _, TrustState.Le.refl _, by simp [Event.saysMultiTenant],
        by simp [Event.saysProbe]⟩
    | some t =>
      simp only [Agent.step, Option.ite_none_right_eq_some, Option.some.injEq, Prod.mk.injEq]
        at hstep
      obtain ⟨ht, rfl, -⟩ := hstep
      refine ⟨?_, TrustState.Le.refl _, by simp [Event.saysMultiTenant], by simp [Event.saysProbe]⟩
      simpa only [Safe, TrustState.load, ht, Option.getD_none] using TrustState.le_strict _

/-- **A whole run.** Whatever any answer of the run said is still latched at its end. -/
theorem Safe.run (hJ : ∀ t, E.json.fromJson (E.json.toJson t) = some t) {s u : Agent}
    {l : List Event} (hrun : Run (Step E) s l u) (h : Safe E s) :
    Safe E u ∧ s.trust.Le u.trust ∧
      ((∃ e ∈ l, e.saysMultiTenant = true) → u.trust.multiTenant = true) ∧
      ((∃ e ∈ l, e.saysProbe = true) → u.trust.probe = true) := by
  induction hrun with
  | nil s => exact ⟨h, TrustState.Le.refl s.trust, by simp, by simp⟩
  | cons hstep _ ih =>
    obtain ⟨hsafe, hle, hmulti, hprobe⟩ := h.step hJ hstep
    obtain ⟨hsafe', hle', hmulti', hprobe'⟩ := ih hsafe
    refine ⟨hsafe', hle.trans hle', ?_, ?_⟩
    · rintro ⟨e, he, hsays⟩
      rcases List.mem_cons.mp he with rfl | he
      · exact hle'.1 (hmulti hsays)
      · exact hmulti' ⟨e, he, hsays⟩
    · rintro ⟨e, he, hsays⟩
      rcases List.mem_cons.mp he with rfl | he
      · exact hle'.2 (hprobe hsays)
      · exact hprobe' ⟨e, he, hsays⟩

/-- An applied binary has the announced hash and was accepted by `authorizeUpdate` in the mode of
the state after the event. -/
theorem authorizeUpdate_of_step {s s' : Agent} {e : Event} {u : Applied}
    (h : s.step E e = some (s', some u)) :
    sha256Hex E.crypto u.data = Text.asciiLower (Text.trim u.version.hash) ∧
      authorizeUpdate E.crypto (s'.trust.mode E.requireReleaseSignature) (compiledReleaseKeys E)
        E.updatePublicKey (UpdateOffer.fromVersion E.platform u.version) u.data
          = .ok u.authorization := by
  cases e with
  | report r => simp [Agent.step] at h
  | restart => simp [Agent.step] at h
  | spoilFile contents => cases contents <;> simp [Agent.step] at h
  | check version exeData download =>
    simp only [Agent.step, Option.ite_none_right_eq_some, Option.some.injEq, Prod.mk.injEq] at h
    obtain ⟨-, rfl, happlied⟩ := h
    cases version with
    | none => simp [checkAndUpdate, Except.toOption] at happlied
    | some v =>
      simp only [checkAndUpdate] at happlied ⊢
      generalize TrustState.observe E.json (s.trust, s.file) (v.multiTenant.getD false) false = p
        at happlied ⊢
      cases hdec : decideUpdate E p.1 v exeData download with
      | error err => simp [hdec, Except.toOption] at happlied
      | ok o =>
        simp only [hdec, Except.toOption, Option.join_some] at happlied
        subst happlied
        exact decideUpdate_some hdec

/-- An answer that says nothing new about tenants leaves the latch alone. -/
theorem step_check_of_decideUpdate {s : Agent} {v : VersionResponse}
    {exeData download : Option (List UInt8)} {u : Applied} (hrunning : s.running = true)
    (hv : v.multiTenant = none) (h : decideUpdate E s.trust v exeData download = .ok (some u)) :
    s.step E (.check (some v) exeData download) = some ({ s with running := false }, some u) := by
  simp [Agent.step, checkAndUpdate, TrustState.observe, TrustState.latch, hrunning, hv, h,
    Except.toOption]

/-- **Update trust never relaxes.** Take any run of an agent from any state file, and any event
after it that applies a binary. If some answer so far said multi-tenant, or the agent requires
release signatures, the binary carries a release signature by a compiled-in key of exactly its
bytes for the agent's platform. If some answer so far told the agent that it is a probe, the binary
carries such a release signature or a signature of exactly its bytes by the operator's local key.
In neither case was it accepted on its hash alone. -/
theorem applied_signed (hJ : ∀ t, E.json.fromJson (E.json.toJson t) = some t) {file : StateFile}
    {l : List Event} {s s' : Agent} {e : Event} {u : Applied}
    (hrun : Run (Step E) (start E file) l s) (hstep : s.step E e = some (s', some u)) :
    sha256Hex E.crypto u.data = Text.asciiLower (Text.trim u.version.hash) ∧
    ((∃ b ∈ l ++ [e], b.saysMultiTenant = true) ∨ E.requireReleaseSignature = true →
      ReleaseSigned E.crypto (compiledReleaseKeys E) (.fromVersion E.platform u.version) u.data ∧
        u.authorization ≠ .hashOnly) ∧
    ((∃ b ∈ l ++ [e], b.saysProbe = true) →
      (ReleaseSigned E.crypto (compiledReleaseKeys E) (.fromVersion E.platform u.version) u.data ∨
        LocallySigned E.crypto E.updatePublicKey (.fromVersion E.platform u.version) u.data) ∧
        u.authorization ≠ .hashOnly) := by
  obtain ⟨-, -, hmulti, hprobe⟩ :=
    Safe.run hJ (hrun.append (Run.single ⟨some u, hstep⟩)) (safe_start file)
  obtain ⟨hhash, hauth⟩ := authorizeUpdate_of_step hstep
  have hnotHash (hmode : s'.trust.mode E.requireReleaseSignature ≠ .standard) :
      u.authorization ≠ .hashOnly := by
    intro heq
    rw [heq] at hauth
    exact hmode (mode_eq_standard_of_hashOnly hauth)
  refine ⟨hhash, ?_, ?_⟩
  · intro hsaid
    have hmode : s'.trust.mode E.requireReleaseSignature = .releaseOnly := by
      rcases hsaid with hsaid | hreq
      · simp [TrustState.mode, hmulti hsaid]
      · simp [TrustState.mode, hreq]
    refine ⟨?_, hnotHash (by rw [hmode]; decide)⟩
    rw [hmode] at hauth
    exact releaseSigned_of_releaseOnly hauth
  · intro hsaid
    have hmode : s'.trust.mode E.requireReleaseSignature ≠ .standard := by
      simp only [TrustState.mode, hprobe hsaid]
      split_ifs <;> decide
    exact ⟨signed_of_ne_standard hmode hauth, hnotHash hmode⟩

/-! ### Two updates of one byte

The keys, hashes and signatures are real ones: `sampleSetup` knows the values of SHA-256 and of
Ed25519 at the inputs that occur. -/

def sampleReleaseKey : List UInt8 :=
  [3, 161, 7, 191, 243, 206, 16, 190, 29, 112, 221, 24, 231, 75, 192, 153, 103, 228, 214, 48, 155,
   165, 13, 95, 29, 220, 134, 100, 18, 85, 49, 184]

/-- The SHA-256 of the release key, which gives its id. -/
def sampleReleaseKeyHash : List UInt8 :=
  [86, 71, 90, 167, 84, 99, 71, 76, 2, 133, 223, 93, 191, 43, 202, 183, 61, 166, 81, 53, 136, 57,
   233, 183, 116, 129, 178, 234, 177, 7, 112, 140]

def sampleLocalKey : List UInt8 :=
  [234, 74, 108, 99, 226, 156, 82, 10, 190, 245, 80, 123, 19, 46, 197, 249, 149, 71, 118, 174, 190,
   190, 123, 146, 66, 30, 234, 105, 20, 70, 210, 44]

/-- The SHA-256 of the running binary, the single byte 1. -/
def sampleExeHash : List UInt8 :=
  [75, 245, 18, 47, 52, 69, 84, 197, 59, 222, 46, 187, 140, 210, 183, 227, 209, 96, 10, 214, 49,
   195, 133, 165, 215, 204, 226, 60, 119, 133, 69, 154]

/-- The SHA-256 of the new binary, the single byte 2. -/
def sampleHash : List UInt8 :=
  [219, 193, 180, 201, 0, 255, 228, 141, 87, 91, 93, 165, 198, 56, 4, 1, 37, 246, 93, 176, 254, 62,
   36, 73, 75, 118, 234, 152, 100, 87, 217, 134]

/-- The signature of the new binary by the release key. -/
def sampleReleaseSignature : List UInt8 :=
  [126, 195, 149, 116, 144, 182, 235, 142, 204, 225, 194, 118, 169, 217, 242, 222, 106, 181, 206,
   114, 185, 250, 234, 19, 53, 119, 176, 3, 210, 155, 95, 72, 108, 172, 217, 109, 250, 169, 108, 35,
   81, 158, 155, 180, 115, 35, 121, 57, 222, 209, 250, 84, 196, 175, 51, 143, 163, 190, 92, 91, 1,
   78, 218, 13]

/-- The signature of the new binary by the local key. -/
def sampleLocalSignature : List UInt8 :=
  [246, 127, 210, 168, 222, 221, 38, 172, 243, 63, 119, 220, 250, 226, 153, 123, 14, 32, 66, 180,
   11, 61, 190, 209, 16, 28, 90, 154, 205, 37, 41, 131, 129, 173, 146, 239, 44, 235, 86, 0, 220, 16,
   172, 101, 93, 93, 62, 229, 50, 132, 201, 6, 59, 56, 46, 141, 114, 71, 110, 250, 87, 213, 149, 12]

def sampleSha256 (data : List UInt8) : List UInt8 :=
  if data = [1] then sampleExeHash
  else if data = [2] then sampleHash
  else if data = sampleReleaseKey then sampleReleaseKeyHash
  else []

def sampleVerifyStrict (key message signature : List UInt8) : Bool :=
  (key = sampleReleaseKey ∧
    message = Text.utf8Bytes (releaseMessage "linux" (Text.hexEncode sampleHash)) ∧
    signature = sampleReleaseSignature) ∨
  (key = sampleLocalKey ∧ message = [2] ∧ signature = sampleLocalSignature)

def sampleToJson (t : TrustState) : String :=
  "\x7b\n  \"multi_tenant\": " ++ toString t.multiTenant ++ ",\n  \"probe\": " ++
    toString t.probe ++ "\n\x7d"

def sampleFromJson (s : String) : Option TrustState :=
  [⟨false, false⟩, ⟨false, true⟩, ⟨true, false⟩, ⟨true, true⟩].find? fun t => sampleToJson t == s

/-- An agent with one release key and a local key. -/
def sampleSetup : Setup (List UInt8) where
  crypto := ⟨some, fun _ => false, sampleVerifyStrict, sampleSha256⟩
  json := ⟨sampleToJson, sampleFromJson⟩
  platform := "linux"
  releasePublicKeys := [Text.hexEncode sampleReleaseKey]
  updatePublicKey := Text.hexEncode sampleLocalKey
  requireReleaseSignature := false

theorem sampleFromJson_sampleToJson (t : TrustState) :
    sampleFromJson (sampleToJson t) = some t := by
  obtain ⟨_ | _, _ | _⟩ := t <;> decide

/-- The release key with its id. -/
def sampleTrustedKey : TrustedKey (List UInt8) :=
  ⟨Text.hexEncode (sampleReleaseKeyHash.take 8), sampleReleaseKey⟩

theorem compiledReleaseKeys_sampleSetup : compiledReleaseKeys sampleSetup = [sampleTrustedKey] := by
  have hlength : sampleReleaseKey.length = 32 := rfl
  have hhash : sampleSha256 sampleReleaseKey = sampleReleaseKeyHash := by
    simp [sampleSha256, sampleReleaseKey]
  simp [compiledReleaseKeys, parseReleaseKeys, sampleSetup, hlength, keyId, hhash, sampleTrustedKey]

/-- The new binary is the announced one and not the one that runs. -/
theorem decideUpdate_sampleSetup (trust : TrustState) {v : VersionResponse}
    (hv : v.hash = Text.hexEncode sampleHash) :
    decideUpdate sampleSetup trust v (some [1]) (some [2]) =
      (authorizeUpdate sampleSetup.crypto (trust.mode false) (compiledReleaseKeys sampleSetup)
        (Text.hexEncode sampleLocalKey) (.fromVersion "linux" v) [2]).map
          fun a => some ⟨v, [2], a⟩ := by
  have hexe : sampleSha256 [1] = sampleExeHash := by simp [sampleSha256]
  have hdata : sampleSha256 [2] = sampleHash := by simp [sampleSha256]
  have hne : Text.hexEncode sampleExeHash ≠ Text.hexEncode sampleHash := by
    intro heq
    have hdecode := congrArg Text.hexDecode heq
    rw [Text.hexDecode_hexEncode, Text.hexDecode_hexEncode] at hdecode
    exact absurd hdecode (by decide)
  simp [decideUpdate, hv, isHex_hexEncode (show sampleHash ≠ [] by decide), sampleSetup, sha256Hex,
    hexe, hdata, hne]

/-- An answer that offers the release-signed binary and says nothing about tenants. -/
def sampleReleaseVersion : VersionResponse where
  hash := Text.hexEncode sampleHash
  signature := none
  releaseSignature := some (Text.hexEncode sampleReleaseSignature)
  releaseKeyId := some (Text.hexEncode (sampleReleaseKeyHash.take 8))
  multiTenant := none

/-- An answer that offers the binary with the signature of the local key only. -/
def sampleLocalVersion : VersionResponse where
  hash := Text.hexEncode sampleHash
  signature := some (Text.hexEncode sampleLocalSignature)
  releaseSignature := none
  releaseKeyId := none
  multiTenant := none

theorem authorizeUpdate_sampleReleaseVersion :
    authorizeUpdate sampleSetup.crypto .releaseOnly (compiledReleaseKeys sampleSetup)
      (Text.hexEncode sampleLocalKey) (.fromVersion "linux" sampleReleaseVersion) [2] =
        .ok (.release (Text.hexEncode (sampleReleaseKeyHash.take 8))) := by
  rw [compiledReleaseKeys_sampleSetup]
  have hsig : nonempty (UpdateOffer.fromVersion "linux" sampleReleaseVersion).releaseSignature =
      some (Text.hexEncode sampleReleaseSignature) := nonempty_hexEncode (by decide)
  have hkid : nonempty (UpdateOffer.fromVersion "linux" sampleReleaseVersion).releaseKeyId =
      some sampleTrustedKey.id := nonempty_hexEncode (by decide)
  have htrim : Text.trim sampleTrustedKey.id = sampleTrustedKey.id := Text.trim_hexEncode _
  have hfind : [sampleTrustedKey].find?
      (fun k => Text.eqIgnoreAsciiCase k.id sampleTrustedKey.id) = some sampleTrustedKey := by
    simp [Text.eqIgnoreAsciiCase]
  have hdec : decodeSignature (Text.hexEncode sampleReleaseSignature) =
      .ok sampleReleaseSignature := decodeSignature_hexEncode rfl
  have hdata : sampleSha256 [2] = sampleHash := by simp [sampleSha256]
  exact authorizeUpdate_of_release hsig hkid htrim hfind hdec
    (by simp [sampleSetup, sampleVerifyStrict, sampleTrustedKey, UpdateOffer.fromVersion, sha256Hex,
      hdata])

theorem authorizeUpdate_sampleLocalVersion :
    authorizeUpdate sampleSetup.crypto .probe (compiledReleaseKeys sampleSetup)
      (Text.hexEncode sampleLocalKey) (.fromVersion "linux" sampleLocalVersion) [2] =
        .ok .localKey := by
  exact authorizeUpdate_of_local (by decide) rfl (Text.trim_hexEncode _) (Text.trim_hexEncode _)
    (hexEncode_ne_empty (by decide)) (Text.hexDecode_hexEncode _) rfl rfl rfl
    (nonempty_hexEncode (by decide)) (decodeSignature_hexEncode rfl)
    (by simp [sampleSetup, sampleVerifyStrict])

/-- The agent after a report that it serves several tenants. -/
def sampleLatched : Agent := ⟨⟨true, false⟩, .text (sampleToJson ⟨true, false⟩), true⟩

/-- The agent after a report that it is a probe. -/
def sampleProbe : Agent := ⟨⟨false, true⟩, .text (sampleToJson ⟨false, true⟩), true⟩

/-- A heartbeat says multi-tenant, the agent restarts, and a later answer that no longer says so
offers a release-signed binary. -/
theorem applied_signed_after_restart :
    ReleaseSigned sampleSetup.crypto (compiledReleaseKeys sampleSetup)
      (.fromVersion "linux" sampleReleaseVersion) [2] := by
  have hreport : Step sampleSetup (start sampleSetup .absent)
      (.report ⟨some ⟨some true, none, none⟩, none⟩) sampleLatched := ⟨none, by decide⟩
  have hrestart : Step sampleSetup sampleLatched .restart sampleLatched := ⟨none, by decide⟩
  have hdecide := decideUpdate_sampleSetup sampleLatched.trust (v := sampleReleaseVersion) rfl
  rw [show sampleLatched.trust.mode false = .releaseOnly from rfl,
    authorizeUpdate_sampleReleaseVersion] at hdecide
  have hcheck := step_check_of_decideUpdate (s := sampleLatched) rfl rfl hdecide
  exact ((applied_signed sampleFromJson_sampleToJson (.cons hreport (.single hrestart)) hcheck).2.1
    (Or.inl (by decide))).1

/-- The agent has been told that it is a probe, and then applies a binary that carries no release
signature: the signature of the operator's local key is accepted. -/
theorem probe_applies_locally_signed :
    ∃ (s s' : Agent) (u : Applied) (l : List Event) (e : Event),
      Run (Step sampleSetup) (start sampleSetup .absent) l s ∧
      (∃ b ∈ l, b.saysProbe = true) ∧ s.step sampleSetup e = some (s', some u) ∧
      ¬ReleaseSigned sampleSetup.crypto (compiledReleaseKeys sampleSetup)
        (.fromVersion sampleSetup.platform u.version) u.data := by
  have hreport : Step sampleSetup (start sampleSetup .absent)
      (.report ⟨some ⟨none, some true, none⟩, none⟩) sampleProbe := ⟨none, by decide⟩
  have hdecide := decideUpdate_sampleSetup sampleProbe.trust (v := sampleLocalVersion) rfl
  rw [show sampleProbe.trust.mode false = .probe from rfl,
    authorizeUpdate_sampleLocalVersion] at hdecide
  refine ⟨sampleProbe, _, _, _, _, .single hreport, by decide,
    step_check_of_decideUpdate (s := sampleProbe) rfl rfl hdecide, ?_⟩
  rintro ⟨key, -, sig, bytes, hsig, -⟩
  simp [UpdateOffer.fromVersion, sampleLocalVersion, nonempty] at hsig

end Agent

end Nodeglow.Updater
