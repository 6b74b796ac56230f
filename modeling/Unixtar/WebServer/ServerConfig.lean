import Unixtar.Http.Encoding
import Unixtar.Utils.YamlUtil

/-!
# The configuration of the web server

`ServerBase::Config` and `WebServer::_CustomConfig` on the text of the
configuration file.

The three numbers that are checked are `size_t` fields, written through a
cast to `int &`: the 32 low bits change, and what is compared afterwards is a
64-bit unsigned number.  A negative one is at least 2³¹ and passes every
check.

## Main results

* `config_done` — what a file that is accepted has to contain, and which
  numbers are stored.
* `validates_iff` — the checks see the real numbers exactly when none of them
  is negative, or the file is refused for another reason.
-/

namespace Unixtar

open Yaml

/-- `ServerBase::ServerConfigBase` and `WebServer::ServerConfig`. -/
structure ServerConfig where
  port : Nat
  netThreadCnt : Nat
  maxConnections : Nat
  isConfigDone : Bool
  maxBacklog : Nat
  workerThreadCnt : Nat
  reverseProxyIp : Bytes
  reverseProxyPort : Nat
  isSendHeartbeat : Bool
  heartbeatPeriod : Int
deriving DecidableEq

namespace ServerConfig

def keyPort : Bytes := lit "port"
def keyNetThreadCnt : Bytes := lit "net_thread_cnt"
def keyMaxConnections : Bytes := lit "max_connections"
def keyMaxBacklog : Bytes := lit "max_backlog"
def keyWorkerThreadCnt : Bytes := lit "worker_thread_cnt"
def keyReverseProxy : Bytes := lit "reverse_proxy"
def keyIp : Bytes := lit "ip"
def keyIsSendHeartbeat : Bytes := lit "send_heartbeat"
def keyHeartbeatPeriod : Bytes := lit "heartbeat_period"

def kDefaultHeartBeatPeriod : Int := 60

/-- `new ServerConfig()`. -/
def new : ServerConfig where
  port := 0
  netThreadCnt := 0
  maxConnections := 0
  isConfigDone := false
  maxBacklog := 0
  workerThreadCnt := 0
  reverseProxyIp := []
  reverseProxyPort := 0
  isSendHeartbeat := false
  heartbeatPeriod := kDefaultHeartBeatPeriod

/-- An `int` written into a `size_t` through `(int &)`: the low half. -/
def storeInt (old : Nat) (v : Int) : Nat := old / 2 ^ 32 * 2 ^ 32 + (v % 2 ^ 32).toNat

/-- Steps of a `try` block: what was written before an exception stays
written. -/
abbrev ConfigM := EStateM LookupError ServerConfig

/-- The `try` block of `ServerBase::Config`. -/
def readBase (desc : Yaml.Parser) : ConfigM Unit := do
  let port ← MonadExcept.ofExcept (desc.getLeaf keyPort)
  modify fun c => { c with port := ValueLeaf.toUint16 port }
  let netThreadCnt ← MonadExcept.ofExcept (desc.getLeaf keyNetThreadCnt)
  modify fun c =>
    { c with netThreadCnt := storeInt c.netThreadCnt (ValueLeaf.toInt netThreadCnt) }
  let maxConnections ← MonadExcept.ofExcept (desc.getLeaf keyMaxConnections)
  modify fun c =>
    { c with maxConnections := storeInt c.maxConnections (ValueLeaf.toInt maxConnections) }

/-- The `try` block of `WebServer::_CustomConfig`. -/
def readCustom (desc : Yaml.Parser) : ConfigM Unit := do
  let maxBacklog ← MonadExcept.ofExcept (desc.getLeaf keyMaxBacklog)
  modify fun c => { c with maxBacklog := storeInt c.maxBacklog (ValueLeaf.toInt maxBacklog) }
  let workerCnt ← MonadExcept.ofExcept (desc.getLeaf keyWorkerThreadCnt)
  modify fun c =>
    { c with workerThreadCnt := storeInt c.workerThreadCnt (ValueLeaf.toInt workerCnt) }
  let reverseProxy ← MonadExcept.ofExcept (desc.getYmlObj keyReverseProxy)
  let ip ← MonadExcept.ofExcept (getLeaf desc.nodes reverseProxy keyIp)
  modify fun c => { c with reverseProxyIp := ip }
  let port ← MonadExcept.ofExcept (getLeaf desc.nodes reverseProxy keyPort)
  modify fun c => { c with reverseProxyPort := ValueLeaf.toUint16 port }
  let isSendHeartbeat ← MonadExcept.ofExcept (getLeaf desc.nodes reverseProxy keyIsSendHeartbeat)
  modify fun c => { c with isSendHeartbeat := ValueLeaf.toBool isSendHeartbeat }
  let heartbeatPeriod ← MonadExcept.ofExcept (getLeaf desc.nodes reverseProxy keyHeartbeatPeriod)
  modify fun c => { c with heartbeatPeriod := ValueLeaf.toInt heartbeatPeriod }

/-- `WebServer::_CustomConfig`; `none` when the process does not survive. -/
def customConfig (desc : Yaml.Parser) (c : ServerConfig) : Option (Bool × ServerConfig) :=
  match readCustom desc c with
  | .error .crashed _ => none
  | .error _ c => some (false, c)
  | .ok _ c =>
      if c.workerThreadCnt < 1 then some (false, c)
      -- two warnings about the ratio of the threads stand here
      else if c.maxBacklog < 0 then some (false, c)
      else if c.heartbeatPeriod < 30 then some (false, c)
      else
        -- the product wraps around as the target's multiplication does
        some (true, { c with heartbeatPeriod := (c.heartbeatPeriod * 1000).bmod (2 ^ 32) })

/-- `ServerBase::Config` up to `yaml::Close`, on a file with this text: what
`config_` is then. -/
def config (path text : Bytes) : Option ServerConfig :=
  match parseYaml path text with
  | none => none
  | some desc =>
      match readBase desc new with
      | .error .crashed _ => none
      | .error _ c => some c
      | .ok _ c =>
          if c.netThreadCnt < 1 then some c
          else
            let c := if c.netThreadCnt > 8 then { c with netThreadCnt := 8 } else c
            (customConfig desc c).map fun
              | (false, c) => c
              | (true, c) => { c with isConfigDone := true }

/-! ## What is read -/

section Reading

variable {desc : Yaml.Parser} {c c' : ServerConfig}

/-- A look-up in a `try` block that comes to its end. -/
theorem ofExcept_bind_ok_iff {α : Type} (x : Except LookupError α) (f : α → ConfigM Unit) :
    (MonadExcept.ofExcept x >>= f) c = .ok () c' ↔ ∃ a, x = .ok a ∧ f a c = .ok () c' := by
  cases x with
  | error e =>
      constructor
      · intro h
        cases h
      · rintro ⟨a, ha, -⟩
        cases ha
  | ok a =>
      constructor
      · intro h
        exact ⟨a, rfl, h⟩
      · rintro ⟨a', ha, h⟩
        cases ha
        exact h

/-- An assignment in a `try` block. -/
theorem modify_bind (g : ServerConfig → ServerConfig) (f : Unit → ConfigM Unit) :
    (modify g >>= f) c = f () (g c) := rfl

theorem modify_ok_iff (g : ServerConfig → ServerConfig) :
    (modify g : ConfigM Unit) c = .ok () c' ↔ c' = g c := by
  constructor
  · intro h
    cases h
    rfl
  · rintro rfl
    rfl

theorem readBase_ok_iff :
    readBase desc c = .ok () c' ↔
      ∃ port, desc.getLeaf keyPort = .ok port ∧
        ∃ net, desc.getLeaf keyNetThreadCnt = .ok net ∧
          ∃ maxConn, desc.getLeaf keyMaxConnections = .ok maxConn ∧
            c' = { c with
              port := ValueLeaf.toUint16 port
              netThreadCnt := storeInt c.netThreadCnt (ValueLeaf.toInt net)
              maxConnections := storeInt c.maxConnections (ValueLeaf.toInt maxConn) } := by
  unfold readBase
  simp only [ofExcept_bind_ok_iff, modify_bind, modify_ok_iff]

theorem readCustom_ok_iff :
    readCustom desc c = .ok () c' ↔
      ∃ backlog, desc.getLeaf keyMaxBacklog = .ok backlog ∧
        ∃ worker, desc.getLeaf keyWorkerThreadCnt = .ok worker ∧
          ∃ proxy, desc.getYmlObj keyReverseProxy = .ok proxy ∧
            ∃ ip, getLeaf desc.nodes proxy keyIp = .ok ip ∧
              ∃ port, getLeaf desc.nodes proxy keyPort = .ok port ∧
                ∃ send, getLeaf desc.nodes proxy keyIsSendHeartbeat = .ok send ∧
                  ∃ period, getLeaf desc.nodes proxy keyHeartbeatPeriod = .ok period ∧
                    c' = { c with
                      maxBacklog := storeInt c.maxBacklog (ValueLeaf.toInt backlog)
                      workerThreadCnt := storeInt c.workerThreadCnt (ValueLeaf.toInt worker)
                      reverseProxyIp := ip
                      reverseProxyPort := ValueLeaf.toUint16 port
                      isSendHeartbeat := ValueLeaf.toBool send
                      heartbeatPeriod := ValueLeaf.toInt period } := by
  unfold readCustom
  simp only [ofExcept_bind_ok_iff, modify_bind, modify_ok_iff]

theorem customConfig_true_iff :
    customConfig desc c = some (true, c') ↔
      ∃ c₁, readCustom desc c = .ok () c₁ ∧ 1 ≤ c₁.workerThreadCnt ∧ 30 ≤ c₁.heartbeatPeriod ∧
        c' = { c₁ with heartbeatPeriod := (c₁.heartbeatPeriod * 1000).bmod (2 ^ 32) } := by
  unfold customConfig
  cases readCustom desc c with
  | error e c₁ => cases e <;> simp
  | ok u c₁ =>
      cases u
      have hbacklog : ¬ c₁.maxBacklog < 0 := Nat.not_lt_zero _
      by_cases hworker : c₁.workerThreadCnt < 1
      · simp only [if_pos hworker]
        constructor
        · intro h
          cases h
        · rintro ⟨_, h, hworker', -⟩
          cases h
          omega
      · by_cases hperiod : c₁.heartbeatPeriod < 30
        · simp only [if_neg hworker, if_neg hbacklog, if_pos hperiod]
          constructor
          · intro h
            cases h
          · rintro ⟨_, h, -, hperiod', -⟩
            cases h
            omega
        · simp only [if_neg hworker, if_neg hbacklog, if_neg hperiod]
          constructor
          · intro h
            cases h
            exact ⟨c₁, rfl, by omega, by omega, rfl⟩
          · rintro ⟨_, h, -, -, rfl⟩
            cases h
            rfl

/-! ### Who writes `is_config_done` -/

/-- The state that a `try` block ends in, with or without an exception. -/
def stateOf : EStateM.Result LookupError ServerConfig Unit → ServerConfig
  | .ok _ c => c
  | .error _ c => c

/-- Steps that leave `is_config_done` alone. -/
def KeepsDone (m : ConfigM Unit) : Prop :=
  ∀ c, (stateOf (m c)).isConfigDone = c.isConfigDone

theorem keepsDone_ofExcept {α : Type} (x : Except LookupError α) {f : α → ConfigM Unit}
    (hf : ∀ a, KeepsDone (f a)) : KeepsDone (MonadExcept.ofExcept x >>= f) := by
  intro c
  cases x with
  | error e => rfl
  | ok a => exact hf a c

theorem keepsDone_modify {g : ServerConfig → ServerConfig}
    (hg : ∀ c, (g c).isConfigDone = c.isConfigDone) : KeepsDone (modify g) := hg

theorem keepsDone_modify_bind {g : ServerConfig → ServerConfig} {f : Unit → ConfigM Unit}
    (hg : ∀ c, (g c).isConfigDone = c.isConfigDone) (hf : KeepsDone (f ())) :
    KeepsDone (modify g >>= f) :=
  fun c => (hf (g c)).trans (hg c)

theorem keepsDone_readBase (desc : Yaml.Parser) : KeepsDone (readBase desc) := by
  refine keepsDone_ofExcept _ fun port => keepsDone_modify_bind (fun _ => rfl) ?_
  refine keepsDone_ofExcept _ fun net => keepsDone_modify_bind (fun _ => rfl) ?_
  exact keepsDone_ofExcept _ fun maxConn => keepsDone_modify fun _ => rfl

theorem keepsDone_readCustom (desc : Yaml.Parser) : KeepsDone (readCustom desc) := by
  refine keepsDone_ofExcept _ fun backlog => keepsDone_modify_bind (fun _ => rfl) ?_
  refine keepsDone_ofExcept _ fun worker => keepsDone_modify_bind (fun _ => rfl) ?_
  refine keepsDone_ofExcept _ fun proxy => ?_
  refine keepsDone_ofExcept _ fun ip => keepsDone_modify_bind (fun _ => rfl) ?_
  refine keepsDone_ofExcept _ fun port => keepsDone_modify_bind (fun _ => rfl) ?_
  refine keepsDone_ofExcept _ fun send => keepsDone_modify_bind (fun _ => rfl) ?_
  exact keepsDone_ofExcept _ fun period => keepsDone_modify fun _ => rfl

/-- `_CustomConfig` does not write `is_config_done`. -/
theorem customConfig_isConfigDone {ok : Bool} (h : customConfig desc c = some (ok, c')) :
    c'.isConfigDone = c.isConfigDone := by
  have hkeeps := keepsDone_readCustom desc c
  unfold customConfig at h
  cases hread : readCustom desc c with
  | error e c₁ =>
      rw [hread] at h hkeeps
      cases e with
      | crashed => cases h
      | _ =>
          cases h
          exact hkeeps
  | ok u c₁ =>
      rw [hread] at h hkeeps
      simp only at h
      split_ifs at h
      all_goals
        cases h
        exact hkeeps

/-- A file that is accepted. -/
theorem config_done_iff {path text : Bytes} (hparse : parseYaml path text = some desc) :
    (config path text = some c ∧ c.isConfigDone = true) ↔
      ∃ c₁, readBase desc new = .ok () c₁ ∧ 1 ≤ c₁.netThreadCnt ∧
        ∃ c₂, customConfig desc { c₁ with netThreadCnt := min c₁.netThreadCnt 8 } =
          some (true, c₂) ∧ c = { c₂ with isConfigDone := true } := by
  have hkeeps : (stateOf (readBase desc new)).isConfigDone = false := keepsDone_readBase desc new
  unfold config
  simp only [hparse]
  cases hread : readBase desc new with
  | error e c₁ =>
      rw [hread] at hkeeps
      constructor
      · rintro ⟨hc, hdone⟩
        have hsame : c₁ = c := by
          cases e <;> cases hc <;> rfl
        subst hsame
        exact absurd (hdone.symm.trans hkeeps) (by decide)
      · rintro ⟨_, h, -⟩
        cases h
  | ok u c₁ =>
      cases u
      rw [hread] at hkeeps
      have hcapped : (if c₁.netThreadCnt > 8 then { c₁ with netThreadCnt := 8 } else c₁) =
          { c₁ with netThreadCnt := min c₁.netThreadCnt 8 } := by
        split_ifs with hbig
        · rw [Nat.min_eq_right (Nat.le_of_lt hbig)]
        · rw [Nat.min_eq_left (Nat.le_of_not_lt hbig)]
      by_cases hnet : c₁.netThreadCnt < 1
      · simp only [if_pos hnet]
        constructor
        · rintro ⟨hc, hdone⟩
          cases hc
          exact absurd (hdone.symm.trans hkeeps) (by decide)
        · rintro ⟨_, h, hnet', -⟩
          cases h
          omega
      · simp only [if_neg hnet, hcapped]
        constructor
        · rintro ⟨hc, hdone⟩
          obtain ⟨⟨ok, c₂⟩, hcustom, hc⟩ := Option.map_eq_some_iff.mp hc
          refine ⟨c₁, rfl, by omega, c₂, ?_⟩
          cases ok with
          | true => exact ⟨hcustom, hc.symm⟩
          | false =>
              have hsame : c₂ = c := hc
              have hfalse := (customConfig_isConfigDone hcustom).trans hkeeps
              rw [hsame, hdone] at hfalse
              exact absurd hfalse (by decide)
        · rintro ⟨_, h, -, c₂, hcustom, rfl⟩
          cases h
          rw [hcustom]
          exact ⟨rfl, rfl⟩

end Reading

/-! ## Decimal integers -/

/-- A decimal integer: a sign, if there is one, and digits. -/
def IsDecimal (s : Bytes) (v : Int) : Prop :=
  ∃ digits, digits ≠ [] ∧ (∀ d ∈ digits, Str.isDigit d = true) ∧
    ((s = digits ∨ s = 43 :: digits) ∧ v = Str.digitsValue digits ∨
      s = 45 :: digits ∧ v = -Str.digitsValue digits)

/-- `strtol` reads a decimal integer that fits. -/
theorem strtol_of_isDecimal {s : Bytes} {v : Int} (h : IsDecimal s v) (hmin : -2 ^ 31 ≤ v)
    (hmax : v < 2 ^ 31) : Str.strtol s = v := by
  obtain ⟨digits, hne, hdigits, hs⟩ := h
  have hsigned : ∀ c : UInt8, c ≠ 0 → Str.isSpace c = false →
      (Str.cstr (c :: digits)).dropWhile Str.isSpace = c :: digits := by
    intro c hnul hblank
    have hcstr : Str.cstr (c :: digits) = c :: digits := by
      rw [Str.cstr, List.takeWhile_cons_of_pos (by simpa using hnul), ← Str.cstr,
        Http.cstr_digits hdigits]
    rw [hcstr, List.dropWhile_cons_of_neg (by simp [hblank])]
  rcases hs with ⟨rfl | rfl, rfl⟩ | ⟨rfl, rfl⟩
  · unfold Str.strtol
    simp only [Http.cstr_digits hdigits, Http.dropWhile_digits hdigits]
    split
    · exact absurd rfl (Http.ne_sign_cons hdigits _).1
    · exact absurd rfl (Http.ne_sign_cons hdigits _).2
    · rw [Http.takeWhile_digits hdigits]
      exact Int.min_eq_left (by omega)
  · unfold Str.strtol
    simp only [hsigned 43 (by decide) (by decide), Http.takeWhile_digits hdigits]
    exact Int.min_eq_left (by omega)
  · unfold Str.strtol
    simp only [hsigned 45 (by decide) (by decide), Http.takeWhile_digits hdigits]
    exact Int.max_eq_left (by omega)

/-- What `To((int &) field)` leaves in a field that was 0: the 32-bit pattern
of the number. -/
theorem storeInt_toInt {s : Bytes} {v : Int} (h : IsDecimal s v) (hmin : -2 ^ 31 ≤ v)
    (hmax : v < 2 ^ 31) : storeInt 0 (ValueLeaf.toInt s) = (v % 2 ^ 32).toNat := by
  have hlow : (v.bmod (2 ^ 32)) % 2 ^ 32 = v % 2 ^ 32 := Int.bmod_emod ..
  rw [storeInt, ValueLeaf.toInt, strtol_of_isDecimal h hmin hmax, hlow]
  omega

/-! ## Files with the three numbers -/

/-- The leaf under this key is a decimal integer in the range of an `int`. -/
def HasNumber (desc : Yaml.Parser) (key : Bytes) (v : Int) : Prop :=
  (∃ s, desc.getLeaf key = .ok s ∧ IsDecimal s v) ∧ -2 ^ 31 ≤ v ∧ v < 2 ^ 31

theorem HasNumber.storeInt_eq {desc : Yaml.Parser} {key s : Bytes} {v : Int}
    (h : HasNumber desc key v) (hs : desc.getLeaf key = .ok s) :
    storeInt 0 (ValueLeaf.toInt s) = (v % 2 ^ 32).toNat := by
  obtain ⟨⟨s', hs', hdecimal⟩, hmin, hmax⟩ := h
  rw [hs] at hs'
  cases hs'
  exact storeInt_toInt hdecimal hmin hmax

end ServerConfig

/-- A configuration file whose thread counts and backlog are integers in the
range of an `int`. -/
structure ConfigFile where
  path : Bytes
  text : Bytes
  desc : Yaml.Parser
  parsed : parseYaml path text = some desc
  netThreadCnt : Int
  workerThreadCnt : Int
  maxBacklog : Int
  net : ServerConfig.HasNumber desc ServerConfig.keyNetThreadCnt netThreadCnt
  worker : ServerConfig.HasNumber desc ServerConfig.keyWorkerThreadCnt workerThreadCnt
  backlog : ServerConfig.HasNumber desc ServerConfig.keyMaxBacklog maxBacklog

namespace ConfigFile

open ServerConfig

/-- A configuration that is done has the numbers of the file, and they are
in their ranges. -/
def Validates (f : ConfigFile) : Prop :=
  ∀ c, config f.path f.text = some c → c.isConfigDone = true →
    (1 ≤ f.netThreadCnt ∧ 1 ≤ f.workerThreadCnt ∧ 0 ≤ f.maxBacklog) ∧
      (c.netThreadCnt : Int) = min f.netThreadCnt 8 ∧
      (c.workerThreadCnt : Int) = f.workerThreadCnt ∧ (c.maxBacklog : Int) = f.maxBacklog

/-- The other settings are there, and the heartbeat period is 30 seconds at
least. -/
structure OthersAccepted (desc : Yaml.Parser) : Prop where
  port : ∃ s, desc.getLeaf keyPort = .ok s
  maxConnections : ∃ s, desc.getLeaf keyMaxConnections = .ok s
  reverseProxy : ∃ proxy, desc.getYmlObj keyReverseProxy = .ok proxy ∧
    (∃ s, getLeaf desc.nodes proxy keyIp = .ok s) ∧
    (∃ s, getLeaf desc.nodes proxy keyPort = .ok s) ∧
    (∃ s, getLeaf desc.nodes proxy keyIsSendHeartbeat = .ok s) ∧
    ∃ s, getLeaf desc.nodes proxy keyHeartbeatPeriod = .ok s ∧ 30 ≤ ValueLeaf.toInt s

/-- What a file that is accepted contains, and what is stored. -/
theorem config_done {f : ConfigFile} {c : ServerConfig} (hc : config f.path f.text = some c)
    (hdone : c.isConfigDone = true) :
    OthersAccepted f.desc ∧ f.netThreadCnt ≠ 0 ∧ f.workerThreadCnt ≠ 0 ∧
      c.netThreadCnt = min (f.netThreadCnt % 2 ^ 32).toNat 8 ∧
      c.workerThreadCnt = (f.workerThreadCnt % 2 ^ 32).toNat ∧
      c.maxBacklog = (f.maxBacklog % 2 ^ 32).toNat := by
  obtain ⟨c₁, hbase, hnet, c₂, hcustom, rfl⟩ := (config_done_iff f.parsed).mp ⟨hc, hdone⟩
  obtain ⟨port, hport, net, hnetLeaf, maxConn, hmaxConn, rfl⟩ := readBase_ok_iff.mp hbase
  obtain ⟨c₃, hread, hworker, hperiod, rfl⟩ := customConfig_true_iff.mp hcustom
  obtain ⟨backlog, hbacklog, worker, hworkerLeaf, proxy, hproxy, ip, hip, proxyPort, hproxyPort,
    send, hsend, period, hperiodLeaf, rfl⟩ := readCustom_ok_iff.mp hread
  have hnetStored : storeInt 0 (ValueLeaf.toInt net) = _ := f.net.storeInt_eq hnetLeaf
  have hworkerStored : storeInt 0 (ValueLeaf.toInt worker) = _ := f.worker.storeInt_eq hworkerLeaf
  have hbacklogStored : storeInt 0 (ValueLeaf.toInt backlog) = _ :=
    f.backlog.storeInt_eq hbacklog
  refine ⟨⟨⟨port, hport⟩, ⟨maxConn, hmaxConn⟩, proxy, hproxy, ⟨ip, hip⟩, ⟨proxyPort, hproxyPort⟩,
    ⟨send, hsend⟩, period, hperiodLeaf, hperiod⟩, ?_, ?_, ?_, hworkerStored, hbacklogStored⟩
  · have hpos : 1 ≤ storeInt 0 (ValueLeaf.toInt net) := hnet
    intro hzero
    rw [hnetStored, hzero] at hpos
    exact absurd hpos (by decide)
  · have hpos : 1 ≤ storeInt 0 (ValueLeaf.toInt worker) := hworker
    intro hzero
    rw [hworkerStored, hzero] at hpos
    exact absurd hpos (by decide)
  · show min (storeInt 0 (ValueLeaf.toInt net)) 8 = _
    rw [hnetStored]

/-- Nothing else is asked of a file: a negative number is as good as a
positive one. -/
theorem exists_config_done {f : ConfigFile} (hothers : OthersAccepted f.desc)
    (hnet : f.netThreadCnt ≠ 0) (hworker : f.workerThreadCnt ≠ 0) :
    ∃ c, config f.path f.text = some c ∧ c.isConfigDone = true := by
  obtain ⟨⟨port, hport⟩, ⟨maxConn, hmaxConn⟩, proxy, hproxy, ⟨ip, hip⟩, ⟨proxyPort, hproxyPort⟩,
    ⟨send, hsend⟩, period, hperiodLeaf, hperiod⟩ := hothers
  obtain ⟨⟨net, hnetLeaf, -⟩, hnetMin, hnetMax⟩ := f.net
  obtain ⟨⟨worker, hworkerLeaf, -⟩, hworkerMin, hworkerMax⟩ := f.worker
  obtain ⟨⟨backlog, hbacklog, -⟩, -, -⟩ := f.backlog
  have hnetStored : storeInt 0 (ValueLeaf.toInt net) = _ := f.net.storeInt_eq hnetLeaf
  have hworkerStored : storeInt 0 (ValueLeaf.toInt worker) = _ := f.worker.storeInt_eq hworkerLeaf
  refine ⟨_, (config_done_iff f.parsed).mpr ⟨_, readBase_ok_iff.mpr
    ⟨port, hport, net, hnetLeaf, maxConn, hmaxConn, rfl⟩, ?_, _, customConfig_true_iff.mpr
      ⟨_, readCustom_ok_iff.mpr ⟨backlog, hbacklog, worker, hworkerLeaf, proxy, hproxy, ip, hip,
        proxyPort, hproxyPort, send, hsend, period, hperiodLeaf, rfl⟩, ?_, hperiod, rfl⟩, rfl⟩⟩
  · show 1 ≤ storeInt 0 (ValueLeaf.toInt net)
    omega
  · show 1 ≤ storeInt 0 (ValueLeaf.toInt worker)
    omega

/-- **The checks see the real numbers** exactly when no number is negative, or
the file is refused: a thread count is 0, or another setting is not
accepted. -/
theorem validates_iff (f : ConfigFile) :
    f.Validates ↔
      (0 ≤ f.netThreadCnt ∧ 0 ≤ f.workerThreadCnt ∧ 0 ≤ f.maxBacklog) ∨
        f.netThreadCnt = 0 ∨ f.workerThreadCnt = 0 ∨ ¬ OthersAccepted f.desc := by
  obtain ⟨-, hnetMin, hnetMax⟩ := f.net
  obtain ⟨-, hworkerMin, hworkerMax⟩ := f.worker
  obtain ⟨-, hbacklogMin, hbacklogMax⟩ := f.backlog
  constructor
  · intro h
    by_contra hcond
    push Not at hcond
    obtain ⟨hsome, hnet, hworker, hothers⟩ := hcond
    obtain ⟨c, hc, hdone⟩ := exists_config_done hothers hnet hworker
    obtain ⟨⟨hnet', hworker', hbacklog'⟩, -⟩ := h c hc hdone
    exact absurd (hsome (by omega) (by omega)) (by omega)
  · intro h c hc hdone
    obtain ⟨hothers, hnet, hworker, hnetStored, hworkerStored, hbacklogStored⟩ :=
      config_done hc hdone
    have hpos : 0 ≤ f.netThreadCnt ∧ 0 ≤ f.workerThreadCnt ∧ 0 ≤ f.maxBacklog := by
      rcases h with h | h | h | h
      · exact h
      · exact absurd h hnet
      · exact absurd h hworker
      · exact absurd hothers h
    refine ⟨?_, ?_, ?_, ?_⟩ <;> omega

/-- The configuration file of the repository without its comments, and with
-1 network threads. -/
def minusOneText : Bytes :=
  [lit "port: 5002", lit "net_thread_cnt: -1", lit "worker_thread_cnt: 4",
    lit "max_connections: 10000", lit "max_backlog: 4096", lit "reverse_proxy:",
    lit "  ip: 127.0.0.1", lit "  port: 80", lit "  send_heartbeat: true",
    lit "  heartbeat_period: 600"].flatMap (· ++ [10])

def minusOne : ConfigFile where
  path := lit "/etc/unixtar/webserverconf.yml"
  text := minusOneText
  desc := (parseYaml (lit "/etc/unixtar/webserverconf.yml") minusOneText).get (by decide +kernel)
  parsed := (Option.some_get _).symm
  netThreadCnt := -1
  workerThreadCnt := 4
  maxBacklog := 4096
  net := ⟨⟨lit "-1", by decide +kernel, lit "1", by decide +kernel⟩, by decide⟩
  worker := ⟨⟨lit "4", by decide +kernel, lit "4", by decide +kernel⟩, by decide⟩
  backlog := ⟨⟨lit "4096", by decide +kernel, lit "4096", by decide +kernel⟩, by decide⟩

/-- The configuration is done. -/
theorem not_validates_minusOne : ¬ minusOne.Validates := by
  intro h
  have hconfig : (config minusOne.path minusOne.text).map isConfigDone = some true := by
    decide +kernel
  obtain ⟨c, hc, hdone⟩ := Option.map_eq_some_iff.mp hconfig
  obtain ⟨⟨hnet, -⟩, -⟩ := h c hc hdone
  exact absurd hnet (by decide)

end ConfigFile

end Unixtar
