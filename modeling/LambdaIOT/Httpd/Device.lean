import LambdaIOT.Httpd.Utils

/-!
# Device information and its SSI tags

`port_device.c` keeps two copies of the configuration: the one in work and the one a
form edits. `cgi_ssi.c` names the values: `<!--#NAME-->` in a page is replaced through
`g_Getters`, a posted `NAME=value` is stored through `g_Setters`.
-/

namespace Httpd

open CMem

/-- `DeviceConfig`. -/
structure DeviceConfig where
  nDhcpEnabled : Nat
  dwIP : Nat
  dwSubnet : Nat
  dwGateway : Nat
  nLog : Int
  nSessionTimeout : Int
  szColor : Bytes
  szDate : Bytes
  szFont : Bytes
  szLocation : Bytes
  deriving DecidableEq

/-- The globals of `port_device.c`. -/
structure Device where
  myMAC : Bytes
  workConfig : DeviceConfig
  tempConfig : DeviceConfig
  deriving DecidableEq

/-- The configuration `InitDevInfo` starts from. -/
def initialConfig : DeviceConfig where
  nDhcpEnabled := 1
  dwIP := 0
  dwSubnet := 0
  dwGateway := 0
  nLog := 0
  nSessionTimeout := 3 * 60 * 1000
  szColor := List.replicate 16 0
  szDate := List.replicate 16 0
  szFont := List.replicate 16 0
  szLocation := List.replicate 16 0

/-- `InitDevInfo(cpuSN)`. -/
def initDevInfo (cpuSN : Bytes) : Device where
  myMAC := [0x00, 0x00, 0x00] ++ cpuSN.take 3
  workConfig := initialConfig
  tempConfig := initialConfig

def getVendor : Bytes := ascii "Straight"
def getVendorURL : Bytes := ascii "https://github.com/straight-coding/"
def getModel : Bytes := ascii "straight-httpd"
def getModelURL : Bytes := ascii "https://github.com/straight-coding/straight-httpd"
def getDeviceName : Bytes := ascii "Virtual Device"
def getDeviceVersion : Bytes := ascii "v1.0.0"
def getDeviceSN : Bytes := ascii "2020-04-10"
def getDeviceUUID : Bytes := ascii "A5757C42-0234-4600-8E0F-8551B7EAEB7A"

/-! ## Values as text -/

/-- `%d.%d.%d.%d` of the four bytes of an address. -/
def dottedIP (ip : Nat) : Bytes :=
  decimalNat (ip / 16777216 % 256) ++ ascii "." ++ decimalNat (ip / 65536 % 256) ++ ascii "." ++
    decimalNat (ip / 256 % 256) ++ ascii "." ++ decimalNat (ip % 256)

/-- A flag as `FillDhcp` and `FillLog` print it. -/
def fillFlag (on : Bool) : Bytes := if on then ascii "1" else ascii "0"

def fillDhcp (d : Device) : Bytes := fillFlag (0 < d.workConfig.nDhcpEnabled)
def fillIP (d : Device) : Bytes := dottedIP d.workConfig.dwIP
def fillGateway (d : Device) : Bytes := dottedIP d.workConfig.dwGateway
def fillSubnet (d : Device) : Bytes := dottedIP d.workConfig.dwSubnet
def fillLog (d : Device) : Bytes := fillFlag (0 < d.workConfig.nLog)

/-- `FillSessionTimeout`: minutes, a `long` printed with `%u`. -/
def fillSessionTimeout (d : Device) : Bytes :=
  decimalNat ((d.workConfig.nSessionTimeout.tdiv 60000).emod 4294967296).toNat

/-- `FillMAC`. -/
def fillMAC (d : Device) : Bytes :=
  List.intercalate (ascii ":")
    ((List.range 6).map fun i => zeroPad 2 (hexUpper (at' d.myMAC i).toNat))

/-! ## Editing -/

/-- `LoadConfig4Edit()`. -/
def Device.loadConfig4Edit (d : Device) : Device := { d with tempConfig := d.workConfig }

/-- `AppyConfig()`. -/
def Device.appyConfig (d : Device) : Device := { d with workConfig := d.tempConfig }

/-- `SetLongIP(addr)`, `SetGateway(addr)` and `SetSubnet(addr)` write the one in work. -/
def Device.setLongIP (d : Device) (addr : Nat) : Device :=
  { d with workConfig := { d.workConfig with dwIP := addr } }

def Device.setGateway (d : Device) (addr : Nat) : Device :=
  { d with workConfig := { d.workConfig with dwGateway := addr } }

def Device.setSubnet (d : Device) (addr : Nat) : Device :=
  { d with workConfig := { d.workConfig with dwSubnet := addr } }

/-- What the setters of the 16-byte texts store: a cleared field and `strncpy` of 15. -/
def setText (value : Bytes) : Bytes := strncpy value 15 ++ [0]

/-- A `long` result, which wraps. -/
def wrapLong (n : Int) : Int := (n + 2147483648).emod 4294967296 - 2147483648

theorem wrapLong_of_fits {n : Int} (hmin : longMin ≤ n) (hmax : n ≤ longMax) : wrapLong n = n := by
  have h1 : longMin = -2147483648 := rfl
  have h2 : longMax = 2147483647 := rfl
  change (n + 2147483648) % 4294967296 - 2147483648 = n
  omega

theorem wrapLong_bounds (n : Int) : longMin ≤ wrapLong n ∧ wrapLong n ≤ longMax := by
  have h1 : longMin = -2147483648 := rfl
  have h2 : longMax = 2147483647 := rfl
  change longMin ≤ (n + 2147483648) % 4294967296 - 2147483648 ∧
    (n + 2147483648) % 4294967296 - 2147483648 ≤ longMax
  omega

/-! ## The tag tables of `cgi_ssi.c` -/

/-- `g_Getters[]`: `TAG_GETTER` entries return a string, `TAG_PROVIDER` ones fill it in. -/
def gGetters : List (Bytes × (Device → Bytes)) :=
  [(ascii "DEV_VENDOR", fun _ => getVendor),
   (ascii "DEV_VENDOR_URL", fun _ => getVendorURL),
   (ascii "DEV_MODEL", fun _ => getModel),
   (ascii "DEV_MODEL_URL", fun _ => getModelURL),
   (ascii "DEV_DHCP", fillDhcp),
   (ascii "DEV_MAC", fillMAC),
   (ascii "DEV_IP", fillIP),
   (ascii "DEV_GATEWAY", fillGateway),
   (ascii "DEV_SUBNET", fillSubnet),
   (ascii "VAR_SESSION_TIMEOUT", fillSessionTimeout),
   (ascii "DEV_NAME", fun _ => getDeviceName),
   (ascii "DEV_SN", fun _ => getDeviceSN),
   (ascii "DEV_UUID", fun _ => getDeviceUUID),
   (ascii "DEV_VERSION", fun _ => getDeviceVersion),
   (ascii "VAR_LOCATION", fun d => d.workConfig.szLocation),
   (ascii "VAR_COLOR", fun d => d.workConfig.szColor),
   (ascii "VAR_DATE", fun d => d.workConfig.szDate),
   (ascii "VAR_FONT", fun d => d.workConfig.szFont),
   (ascii "VAR_LOG", fillLog)]

/-- `g_Setters[]`, as edits of the temporary configuration. -/
def gSetters : List (Bytes × (Bytes → DeviceConfig → DeviceConfig)) :=
  [(ascii "DEV_DHCP", fun v c => { c with nDhcpEnabled := if atol v ≠ 0 then 1 else 0 }),
   (ascii "VAR_SESSION_TIMEOUT",
     fun v c => { c with nSessionTimeout := wrapLong (60 * 1000 * atol v) }),
   (ascii "DEV_IP", fun _ c => { c with dwIP := 0 }),
   (ascii "DEV_GATEWAY", fun _ c => { c with dwGateway := 0 }),
   (ascii "DEV_SUBNET", fun _ c => { c with dwSubnet := 0 }),
   (ascii "VAR_LOCATION", fun v c => { c with szLocation := setText v }),
   (ascii "VAR_COLOR", fun v c => { c with szColor := setText v }),
   (ascii "VAR_DATE", fun v c => { c with szDate := setText v }),
   (ascii "VAR_FONT", fun v c => { c with szFont := setText v }),
   (ascii "VAR_LOG", fun v c => { c with nLog := atol v })]

/-- `TAG_Setter(name, value)`. -/
def tagSetter (d : Device) (name value : Bytes) : Device :=
  match gSetters.find? fun t => strEq t.1 name with
  | some t => { d with tempConfig := t.2 value d.tempConfig }
  | none => d

/-- The text `ReplaceTag` collects in `szTemp[64]` for a tag. -/
def tagText (d : Device) (tagName : Bytes) : Bytes :=
  match gGetters.find? fun t => strEq t.1 tagName with
  | some t => (cstr (t.2 d)).take 63
  | none => []

/-- The value `ReplaceTag(context, tagName, appendTo, maxAllowed)` returns; `strncpy`
copies that many bytes, so a negative one is a copy without end. -/
def replaceTagLen (d : Device) (tagName : Bytes) (maxAllowed : Int) : Int :=
  let text := tagText d tagName
  if text = [] then 0
  else if maxAllowed ≤ (text.length : Int) then maxAllowed else text.length

/-- The bytes `ReplaceTag` copies to `appendTo`. -/
def replaceTag (d : Device) (tagName : Bytes) (maxAllowed : Int) : Bytes :=
  (tagText d tagName).take (replaceTagLen d tagName maxAllowed).toNat

/-! ## Lemmas -/

theorem length_tagText_le (d : Device) (tagName : Bytes) : (tagText d tagName).length ≤ 63 := by
  unfold tagText
  split
  · rw [List.length_take]
    omega
  · exact Nat.zero_le _

/-- A tag with room for it returns exactly the bytes it copied. -/
theorem length_replaceTag {d : Device} {tagName : Bytes} {maxAllowed : Int}
    (h : 0 ≤ maxAllowed) :
    ((replaceTag d tagName maxAllowed).length : Int) = replaceTagLen d tagName maxAllowed := by
  rw [replaceTag, List.length_take]
  unfold replaceTagLen
  dsimp only
  split
  · rename_i h0
    simp [h0]
  · split <;> omega

theorem replaceTagLen_le {d : Device} {tagName : Bytes} {maxAllowed : Int}
    (h : 0 ≤ maxAllowed) : replaceTagLen d tagName maxAllowed ≤ maxAllowed := by
  unfold replaceTagLen
  dsimp only
  split
  · exact h
  · split <;> omega

end Httpd
