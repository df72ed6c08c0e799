import LambdaIOT.Httpd.Device
import LambdaIOT.Properties.Sessions

/-!
# The session timeout

The form posts minutes. `SetSessionTimeout` multiplies them into milliseconds in a `long`, so a
number of minutes whose product does not fit gives some other setting. A setting that fits is
rendered and used as what it is; a negative one is rendered as a large number and switches the
expiry off.
-/

namespace Httpd

open CMem

/-! ## Rendering -/

/-- A `long` that is printed with `%u` reads as its minutes as long as they are not negative. -/
theorem fillSessionTimeout_iff {d : Device} (hmin : longMin ≤ d.workConfig.nSessionTimeout)
    (hmax : d.workConfig.nSessionTimeout ≤ longMax) :
    fillSessionTimeout d = decimal (d.workConfig.nSessionTimeout.tdiv 60000) ↔
      -60000 < d.workConfig.nSessionTimeout := by
  have h1 : longMin = -2147483648 := rfl
  have h2 : longMax = 2147483647 := rfl
  rw [fillSessionTimeout]
  generalize d.workConfig.nSessionTimeout = v at hmin hmax ⊢
  have hquot : v.tdiv 60000 = if 0 ≤ v then v / 60000 else -(-v / 60000) := by
    split
    · rename_i hpos
      exact Int.tdiv_eq_ediv_of_nonneg hpos
    · rw [← Int.tdiv_eq_ediv_of_nonneg (by omega), Int.neg_tdiv, neg_neg]
  generalize v.tdiv 60000 = q at hquot ⊢
  constructor
  · intro hrendered
    by_contra hneg
    have hq : q < 0 := by
      rw [hquot]
      split <;> omega
    rw [decimal, if_pos hq] at hrendered
    -- A number printed with `%u` has no sign.
    have hsign : (45 : UInt8) ∈ decimalNat (q.emod 4294967296).toNat := by
      rw [hrendered]
      exact List.mem_cons_self ..
    exact absurd (decimalNat_digits _ 45 hsign) (by decide)
  · intro hpos
    have hq : 0 ≤ q ∧ q < 4294967296 := by
      rw [hquot]
      split <;> omega
    have hmod : q.emod 4294967296 = q := Int.emod_eq_of_lt hq.1 hq.2
    rw [decimal, if_neg (by omega), hmod]
    congr 1
    omega

/-! ## The setting -/

/-- What setting `m` minutes is to do: the value in force is that many milliseconds if they fit a
`long`, and the previous one otherwise; the page shows its minutes; and a session is cleared when
it was idle for more than the value in force, if that is positive. -/
structure TimeoutSet (m : Nat) (previous : Int) (d : Device) : Prop where
  value : d.workConfig.nSessionTimeout =
    if 60000 * (m : Int) ≤ longMax then 60000 * (m : Int) else previous
  rendered : fillSessionTimeout d = decimal (d.workConfig.nSessionTimeout.tdiv 60000)
  expires : ∀ (ss : List Session) (tick i : Nat) (s : Session), ss[i]? = some s → s.Live →
    (sessionCheck ss tick d.workConfig.nSessionTimeout)[i]? =
      some (if 0 < d.workConfig.nSessionTimeout ∧
        d.workConfig.nSessionTimeout < (idleTime s tick : Int) then emptySession else s)

theorem sessionCheck_expires (timeout : Int) (ss : List Session) (tick i : Nat) (s : Session)
    (hs : ss[i]? = some s) (hl : s.Live) : (sessionCheck ss tick timeout)[i]? =
      some (if 0 < timeout ∧ timeout < (idleTime s tick : Int) then emptySession else s) := by
  obtain ⟨hcleared, hkept⟩ := @sessionCheck_getElem? ss tick i timeout s hs
  by_cases hidle : 0 < timeout ∧ timeout < (idleTime s tick : Int)
  · rw [if_pos hidle]
    exact hcleared ⟨hl, hidle⟩
  · rw [if_neg hidle]
    exact hkept fun he => hidle he.2

/-- The value in force after the form was posted. -/
theorem nSessionTimeout_set (value : Bytes) (d : Device) :
    ((tagSetter d (ascii "VAR_SESSION_TIMEOUT") value).appyConfig).workConfig.nSessionTimeout =
      wrapLong (60 * 1000 * atol value) := by
  have hfind : gSetters.find? (fun t => strEq t.1 (ascii "VAR_SESSION_TIMEOUT")) =
      some (gSetters.get ⟨1, by decide⟩) := by rfl
  rw [Device.appyConfig, tagSetter, hfind]
  rfl

/-- Minutes `ds` are set as they should be when their milliseconds fit a `long`, or when what the
product wraps to is, by chance, the value that was in force before and shows as its minutes. -/
theorem session_timeout_set_iff {ds : Bytes} (hds : ∀ c ∈ ds, isDigit c = true) (hne : ds ≠ [])
    (hfit : (positionalValue 10 ds : Int) ≤ longMax) (behind : Bytes) (d : Device) :
    TimeoutSet (positionalValue 10 ds) d.workConfig.nSessionTimeout
        (tagSetter d (ascii "VAR_SESSION_TIMEOUT") (ds ++ 0 :: behind)).appyConfig ↔
      60000 * (positionalValue 10 ds : Int) ≤ longMax ∨
        (wrapLong (60000 * positionalValue 10 ds) = d.workConfig.nSessionTimeout ∧
          -60000 < d.workConfig.nSessionTimeout) := by
  have hmin : longMin = -2147483648 := rfl
  have hmax : longMax = 2147483647 := rfl
  have hvalue : atol (ds ++ 0 :: behind) = positionalValue 10 ds := by
    rw [atol_append hne hds fun c hc => by cases hc; rfl]
    exact min_eq_right hfit
  have hset := nSessionTimeout_set (ds ++ 0 :: behind) d
  rw [hvalue] at hset
  change _ = wrapLong (60000 * (positionalValue 10 ds : Int)) at hset
  generalize (tagSetter d (ascii "VAR_SESSION_TIMEOUT") (ds ++ 0 :: behind)).appyConfig = d' at hset ⊢
  generalize positionalValue 10 ds = m at hfit hset ⊢
  have hbounds := wrapLong_bounds (60000 * (m : Int))
  rw [← hset] at hbounds ⊢
  have hrendered := fillSessionTimeout_iff hbounds.1 hbounds.2
  constructor
  · intro h
    by_cases hproduct : 60000 * (m : Int) ≤ longMax
    · exact .inl hproduct
    · have hkept := h.value
      rw [if_neg hproduct] at hkept
      refine .inr ⟨hkept, ?_⟩
      rw [← hkept]
      exact hrendered.mp h.rendered
  · intro h
    have hkeep : d'.workConfig.nSessionTimeout =
        (if 60000 * (m : Int) ≤ longMax then 60000 * (m : Int) else d.workConfig.nSessionTimeout) ∧
          -60000 < d'.workConfig.nSessionTimeout := by
      by_cases hproduct : 60000 * (m : Int) ≤ longMax
      · rw [if_pos hproduct, hset, wrapLong_of_fits (by omega) hproduct]
        exact ⟨rfl, by omega⟩
      · rw [if_neg hproduct]
        rcases h with h | ⟨hsame, hpos⟩
        · exact absurd h hproduct
        · rw [hsame]
          exact ⟨rfl, hpos⟩
    constructor
    · exact hkeep.1
    · exact hrendered.mpr hkeep.2
    · exact sessionCheck_expires _

/-- A minute over the largest number whose milliseconds fit. -/
theorem session_timeout_overflow :
    ¬TimeoutSet 35792 180000 (tagSetter (initDevInfo [1, 2, 3]) (ascii "VAR_SESSION_TIMEOUT")
      ([51, 53, 55, 57, 50] ++ [0])).appyConfig := by
  intro h
  have hvalue := h.value
  rw [nSessionTimeout_set] at hvalue
  exact absurd hvalue (by decide)

/-- Five minutes. -/
theorem session_timeout_five :
    TimeoutSet 5 180000 (tagSetter (initDevInfo [1, 2, 3]) (ascii "VAR_SESSION_TIMEOUT")
      ([53] ++ [0])).appyConfig := by
  have hdigits : ∀ c ∈ [53], isDigit c = true := by
    intro c hc
    obtain rfl := List.mem_singleton.mp hc
    rfl
  exact (session_timeout_set_iff hdigits (by decide) (by decide) [] (initDevInfo [1, 2, 3])).mpr
    (.inl (by decide))

end Httpd
