import CommentBlocks.Config.Decode
import CommentBlocks.Proofs.Config.Conversion
import CommentBlocks.Proofs.Toml.Ascending
import Mathlib.Data.Option.Basic

/-!
The settings of a configuration: those that are read from a text have their fields in order, and the value
that transforms get for them is there exactly if all numbers in them are finite.
-/

namespace CommentBlocks.Config

open Toml (Ascending)
open Setting (AllFinite Matches Ordered StopsAt nameOf nonFiniteText)

/-! ### The order of fields -/

lemma keys_of_settings? {fields : Toml.Fields} {settings : List (String × Setting)}
    (h : settings? fields = some settings) : settings.map Prod.fst = fields.map Prod.fst := by
  induction fields generalizing settings with
  | nil => exact Option.some.inj h ▸ rfl
  | cons f fields ih =>
    obtain ⟨k, t⟩ := f
    rw [settings?] at h
    split at h
    · next hrest =>
      obtain rfl := Option.some.inj h
      rw [List.map_cons, List.map_cons, ih hrest]
    · cases h

lemma ordered_of_datetime? {t : Toml} {s : Setting} (h : datetime? t = some s) : s.Ordered := by
  obtain ⟨text, -, rfl⟩ := Option.map_eq_some_iff.1 h
  exact .datetime _

mutual

theorem ordered_of_setting? {s : Setting} : ∀ {t : Toml}, t.Ordered → setting? t = some s → s.Ordered
  | .string _, _, h => by
    obtain rfl := Option.some.inj h
    exact .string _
  | .integer _, _, h => by
    rw [setting?] at h
    split at h
    · exact Option.some.inj h ▸ .integer _
    · cases h
  | .float _, _, h => by
    obtain rfl := Option.some.inj h
    exact .float _
  | .unreadable, _, h => by cases h
  | .boolean _, _, h => by
    obtain rfl := Option.some.inj h
    exact .boolean _
  | .datetime _, _, h => by
    obtain rfl := Option.some.inj h
    exact .datetime _
  | .array _ items, ht, h => by
    obtain ⟨ss, hss, rfl⟩ := Option.map_eq_some_iff.1 h
    exact .array (ordered_of_settingItems? ht.items hss)
  | .table _ fields, ht, h => by
    rw [setting?] at h
    split at h
    · split at h
      · exact ordered_of_datetime? h
      · obtain ⟨settings, hsettings, rfl⟩ := Option.map_eq_some_iff.1 h
        exact .table (keys_of_settings? hsettings ▸ ht.ascending.keys)
          (ordered_of_settings? ht.ascending.ordered hsettings)
    · exact Option.some.inj h ▸ .table List.Pairwise.nil (by simp)

theorem ordered_of_settingItems? {ss : List Setting} : ∀ {items : List Toml},
    (∀ t ∈ items, t.Ordered) → settingItems? items = some ss → ∀ s ∈ ss, s.Ordered
  | [], _, h => by
    obtain rfl := Option.some.inj h
    simp
  | t :: items, hitems, h => by
    obtain ⟨ht, hitems⟩ := List.forall_mem_cons.1 hitems
    rw [settingItems?] at h
    split at h
    · next hs hss =>
      obtain rfl := Option.some.inj h
      exact List.forall_mem_cons.2 ⟨ordered_of_setting? ht hs, ordered_of_settingItems? hitems hss⟩
    · cases h

theorem ordered_of_settings? {settings : List (String × Setting)} : ∀ {fields : Toml.Fields},
    (∀ f ∈ fields, f.2.Ordered) → settings? fields = some settings → ∀ f ∈ settings, f.2.Ordered
  | [], _, h => by
    obtain rfl := Option.some.inj h
    simp
  | (k, t) :: fields, hfields, h => by
    obtain ⟨ht, hfields⟩ := List.forall_mem_cons.1 hfields
    rw [settings?] at h
    split at h
    · next hs hss =>
      obtain rfl := Option.some.inj h
      exact List.forall_mem_cons.2 ⟨ordered_of_setting? ht hs, ordered_of_settings? hfields hss⟩
    · cases h

end

lemma settings_of_ofFields? {fields : Toml.Fields} {c : Config} (h : ofFields? fields = some c) :
    field? fields "settings" [] (fun t => (fields? t).bind settings?) = some c.settings := by
  simp only [ofFields?, Option.bind_eq_bind, Option.bind_eq_some_iff] at h
  obtain ⟨_, -, _, -, _, -, _, -, _, -, _, -, _, -, _, -, _, -, _, -, _, -, settings, hsettings, hc⟩ := h
  exact Option.some.inj hc ▸ hsettings

lemma ascending_of_fields? {t : Toml} {fields : Toml.Fields} (ht : t.Ordered)
    (h : fields? t = some fields) : Ascending fields := by
  unfold fields? at h
  split at h
  · exact Option.some.inj h ▸ ht.ascending
  · exact Option.some.inj h ▸ ⟨List.pairwise_singleton _ _, by simpa using .atom trivial⟩
  · cases h

theorem ordered_of_parse {text : String} {c : Config} (h : parse text = .ok c) :
    Setting.Ordered (.table c.settings) := by
  unfold parse at h
  split at h
  · cases h
  · next fields hfields =>
    have hfields := Toml.ascending_of_parse? hfields
    split at h
    · cases h
    · next hc =>
      obtain rfl := Except.ok.inj h
      have hsettings := settings_of_ofFields? hc
      unfold field? at hsettings
      split at hsettings
      · rw [← Option.some.inj hsettings]
        exact .table List.Pairwise.nil (by simp)
      · next hget =>
        obtain ⟨inner, hinner, hsettings⟩ := Option.bind_eq_some_iff.1 hsettings
        have hinner := ascending_of_fields? (hfields.get? hget) hinner
        exact .table (keys_of_settings? hsettings ▸ hinner.keys)
          (ordered_of_settings? hinner.ordered hsettings)

/-! ### The value of the settings -/

/-- The settings have a value exactly if all numbers in them are finite, and the value has their shape. If
not, the conversion stops at the first number that is not finite, under the name of the tables around it. -/
theorem settingsValue_stops_first (c : Config) (h : Ordered (.table c.settings)) :
    ((∃ v, c.settingsValue = .ok v) ↔ AllFinite (.table c.settings)) ∧
      (∀ v, c.settingsValue = .ok v → Matches (.table c.settings) v) ∧
      (¬ AllFinite (.table c.settings) → ∃ way x, StopsAt (.table c.settings) way x ∧
        c.settingsValue = .error (.unconvertibleFloat (nameOf "settings" way) (nonFiniteText x))) := by
  have hconverts := Setting.converts_value _ h "settings"
  rw [settingsValue]
  cases hvalue : Setting.value "settings" (.table c.settings) with
  | ok v =>
    rw [hvalue] at hconverts
    obtain ⟨hmatches, hfinite⟩ := hconverts.of_ok
    refine ⟨⟨fun _ => hfinite, fun _ => ⟨v, rfl⟩⟩, fun w hw => ?_, fun hnot => absurd hfinite hnot⟩
    exact Except.ok.inj hw ▸ hmatches
  | error fault =>
    rw [hvalue] at hconverts
    cases hconverts with
    | @stopped way x hstops =>
      refine ⟨⟨fun ⟨v, hv⟩ => (nomatch hv), fun hfinite => ?_⟩, fun v hv => (nomatch hv),
        fun _ => ⟨way, x, hstops, rfl⟩⟩
      exact absurd (hfinite way x hstops.leads) (by simp [hstops.notFinite])

/-- Two numbers that are not finite. The one that is written last comes first, in the table in an array. -/
theorem settingsValue_stops_first_in_array :
    let text := "[settings]\nz = nan\na = [0.5, \x7b b = -inf \x7d]"
    ∃ c, parse text = .ok c ∧ Ordered (.table c.settings) ∧ ¬ AllFinite (.table c.settings) ∧
      ∃ way x, StopsAt (.table c.settings) way x ∧ nameOf "settings" way = "settings.a.b" ∧
        nonFiniteText x = "-inf" := by
  intro text
  have hvalue : (parse text).bind settingsValue =
      .error (.unconvertibleFloat "settings.a.b" "-inf") := by decide +kernel
  have hok : (parse text).isOk = true := by decide +kernel
  cases hparse : parse text with
  | error fault =>
    rw [hparse] at hok
    cases hok
  | ok c =>
    rw [hparse] at hvalue
    change c.settingsValue = _ at hvalue
    have hordered := ordered_of_parse hparse
    obtain ⟨hiff, -, hstops⟩ := settingsValue_stops_first c hordered
    have hnot : ¬ AllFinite (.table c.settings) := fun hfinite => by
      obtain ⟨v, hv⟩ := hiff.2 hfinite
      cases hvalue.symm.trans hv
    obtain ⟨way, x, hway, heq⟩ := hstops hnot
    obtain ⟨hname, htext⟩ := Fault.unconvertibleFloat.inj (Except.error.inj (hvalue.symm.trans heq))
    exact ⟨c, rfl, hordered, hnot, way, x, hway, hname.symm, htext.symm⟩

end CommentBlocks.Config
