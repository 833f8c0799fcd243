import Grex.FinMap

/-!
The fields of an agent's message that the server reads, and the rendering of
its sixteen-byte instance uid. Presence of a sub-message is an `Option`, and is
kept apart from the emptiness of the map it carries.
-/

namespace Grex.Message

/-- A non-string value carries the text its own `String` method prints. -/
inductive AnyValue
  | stringValue (text : String)
  | other (printed : String)
  deriving DecidableEq

structure KeyValue where
  key : String
  value : AnyValue
  deriving DecidableEq

structure AgentDescription where
  identifyingAttributes : List KeyValue
  nonIdentifyingAttributes : List KeyValue
  deriving DecidableEq

structure ComponentHealth where
  healthy : Bool
  lastError : String
  status : String
  startTimeUnixNano : UInt64
  statusTimeUnixNano : UInt64
  deriving DecidableEq

/-- The enumeration is open: a message may carry a number that has no name. -/
inductive PackageStatusEnum
  | installed
  | installPending
  | installing
  | installFailed
  | downloading
  | unrecognized (number : { n : Int32 // n < 0 ∨ 4 < n })
  deriving DecidableEq

/-- The name, or the number in decimal. -/
def PackageStatusEnum.string : PackageStatusEnum → String
  | .installed => "PackageStatusEnum_Installed"
  | .installPending => "PackageStatusEnum_InstallPending"
  | .installing => "PackageStatusEnum_Installing"
  | .installFailed => "PackageStatusEnum_InstallFailed"
  | .downloading => "PackageStatusEnum_Downloading"
  | .unrecognized number => toString number.val.toInt

structure PackageStatus where
  name : String
  agentHasVersion : String
  serverOfferedVersion : String
  status : PackageStatusEnum
  errorMessage : String
  deriving DecidableEq

structure PackageStatuses where
  packages : FinMap String PackageStatus
  deriving DecidableEq

/-- The config map may itself be absent from a present effective config. -/
structure EffectiveConfig where
  configMap : Option (FinMap String String)
  deriving DecidableEq

structure CustomMessage where
  capability : String
  type : String
  data : String
  deriving DecidableEq

structure AgentToServer where
  instanceUid : List UInt8
  sequenceNum : UInt64 := 0
  capabilities : UInt64 := 0
  agentDescription : Option AgentDescription := none
  health : Option ComponentHealth := none
  packageStatuses : Option PackageStatuses := none
  effectiveConfig : Option EffectiveConfig := none
  customMessage : Option CustomMessage := none
  deriving DecidableEq

namespace AgentToServer

/-- Reading through an absent sub-message gives the empty map. -/
def getPackages (msg : AgentToServer) : FinMap String PackageStatus :=
  match msg.packageStatuses with
  | none => ∅
  | some statuses => statuses.packages

def getConfigMap (msg : AgentToServer) : FinMap String String :=
  match msg.effectiveConfig with
  | none => ∅
  | some config => config.configMap.getD ∅

end AgentToServer

def hexDigit (n : ℕ) : Char := "0123456789abcdef".toList.getD n '0'

def hexBytes (raw : List UInt8) : List Char :=
  raw.flatMap fun b => [hexDigit (b.toNat / 16), hexDigit (b.toNat % 16)]

def uuidString (raw : List UInt8) : String :=
  String.ofList (hexBytes (raw.take 4) ++ '-' :: hexBytes ((raw.drop 4).take 2) ++
    '-' :: hexBytes ((raw.drop 6).take 2) ++ '-' :: hexBytes ((raw.drop 8).take 2) ++
    '-' :: hexBytes (raw.drop 10))

/-- An instance uid is exactly sixteen bytes, rendered as a UUID. -/
def instanceUID (raw : List UInt8) : Except String String :=
  if raw.length = 16 then .ok (uuidString raw)
  else .error ("invalid UUID (got " ++ toString raw.length ++ " bytes)")

example : instanceUID [1, 2, 3, 4, 5, 6, 7, 8, 9, 10, 11, 12, 13, 14, 15, 16] =
    .ok "01020304-0506-0708-090a-0b0c0d0e0f10" := by decide

theorem hexDigit_inj {n m : ℕ} (hn : n < 16) (hm : m < 16) (h : hexDigit n = hexDigit m) :
    n = m := by
  have hall : ∀ i < 16, ∀ j < 16, hexDigit i = hexDigit j → i = j := by decide
  exact hall n hn m hm h

theorem length_hexBytes (raw : List UInt8) : (hexBytes raw).length = 2 * raw.length := by
  induction raw with
  | nil => rfl
  | cons b raw ih =>
    have hlen : (hexBytes (b :: raw)).length = (hexBytes raw).length + 2 := rfl
    rw [hlen, ih, List.length_cons]
    omega

theorem hexBytes_inj {raw other : List UInt8} (h : hexBytes raw = hexBytes other) :
    raw = other := by
  induction raw generalizing other with
  | nil =>
    have hlen := congrArg List.length h
    rw [length_hexBytes, length_hexBytes] at hlen
    cases other with
    | nil => rfl
    | cons c other => simp at hlen
  | cons b raw ih =>
    cases other with
    | nil => cases h
    | cons c other =>
      have hcons : hexDigit (b.toNat / 16) :: hexDigit (b.toNat % 16) :: hexBytes raw =
          hexDigit (c.toNat / 16) :: hexDigit (c.toNat % 16) :: hexBytes other := h
      obtain ⟨hhigh, htail⟩ := List.cons.inj hcons
      obtain ⟨hlow, hrest⟩ := List.cons.inj htail
      have hb := b.toNat_lt
      have hc := c.toNat_lt
      have hdiv := hexDigit_inj (by omega) (by omega) hhigh
      have hmod := hexDigit_inj (by omega) (by omega) hlow
      have hbyte : b = c := UInt8.toNat_inj.mp (by omega)
      rw [hbyte, ih hrest]

/-- Equal renderings split at the same dash. -/
theorem hexBytes_dash_inj {raw other : List UInt8} {rest rest' : List Char}
    (hlen : raw.length = other.length)
    (h : hexBytes raw ++ '-' :: rest = hexBytes other ++ '-' :: rest') :
    raw = other ∧ rest = rest' := by
  have hsame : (hexBytes raw).length = (hexBytes other).length := by
    rw [length_hexBytes, length_hexBytes, hlen]
  obtain ⟨hhead, htail⟩ := List.append_inj h hsame
  exact ⟨hexBytes_inj hhead, (List.cons.inj htail).2⟩

theorem uuidString_inj {raw other : List UInt8} (hlen : raw.length = other.length)
    (h : uuidString raw = uuidString other) : raw = other := by
  have hlist := String.ofList_injective h
  simp only [List.append_assoc, List.cons_append] at hlist
  obtain ⟨htimeLow, h4⟩ := hexBytes_dash_inj (by simp [hlen]) hlist
  obtain ⟨htimeMid, h6⟩ := hexBytes_dash_inj (by simp [hlen]) h4
  obtain ⟨htimeHigh, h8⟩ := hexBytes_dash_inj (by simp [hlen]) h6
  obtain ⟨hclock, h10⟩ := hexBytes_dash_inj (by simp [hlen]) h8
  have hnode := hexBytes_inj h10
  have hsplit : ∀ l : List UInt8, l.take 4 ++ ((l.drop 4).take 2 ++ ((l.drop 6).take 2 ++
      ((l.drop 8).take 2 ++ l.drop 10))) = l := by
    intro l
    have hten : l.drop 10 = (l.drop 8).drop 2 := by rw [List.drop_drop]
    have height : l.drop 8 = (l.drop 6).drop 2 := by rw [List.drop_drop]
    have hsix : l.drop 6 = (l.drop 4).drop 2 := by rw [List.drop_drop]
    rw [hten, List.take_append_drop, height, List.take_append_drop, hsix, List.take_append_drop,
      List.take_append_drop]
  rw [← hsplit raw, ← hsplit other, htimeLow, htimeMid, htimeHigh, hclock, hnode]

/-- Different uids are rendered differently. -/
theorem instanceUID_inj {raw other : List UInt8} {id : String} (h : instanceUID raw = .ok id)
    (h' : instanceUID other = .ok id) : raw = other := by
  unfold instanceUID at h h'
  split at h
  · rename_i hlen
    split at h'
    · rename_i hlen'
      have hid := Except.ok.inj h
      have hid' := Except.ok.inj h'
      exact uuidString_inj (hlen.trans hlen'.symm) (hid.trans hid'.symm)
    · cases h'
  · cases h

/-- The shortest message of the agent with the all-zero uid. -/
def heartbeat : AgentToServer := { instanceUid := List.replicate 16 0 }

def zeroUID : String := "00000000-0000-0000-0000-000000000000"

/-- A heartbeat of another agent. -/
def secondHeartbeat : AgentToServer := { instanceUid := List.replicate 16 1 }

def secondUID : String := "01010101-0101-0101-0101-010101010101"

end Grex.Message
