import SelfPlay.Config
import SelfPlay.Proofs.Numeric.DecimalText
import SelfPlay.Proofs.Options.Dictionary
import SelfPlay.TicTacToe.Heuristic

/-!
# Configurations applied to players

Applied, a configuration is three dictionaries laid over one another: the player's own, the options
of self-play as they are written, and the options for the search engine. What is written for
self-play reads back, so a player has the options it was given unless the engine's cover them.
-/

namespace SelfPlay

open SelfPlay.Numeric
open SelfPlay.Text (natural? truth? ofNat ofBool trim trim_ofNat trim_ofBool natural?_toDigits
  truth?_ofBool)

namespace SelfPlayOptions

variable {options : SelfPlayOptions Binary32} {dict : OptionsDict}

/-- The six names differ. -/
theorem nodup_toEntries (options : SelfPlayOptions Binary32) :
    (options.toEntries.map (·.1)).Nodup := by
  have hnames : options.toEntries.map (·.1) = names := rfl
  rw [hnames]
  decide

/-- The three ranges, each with both ends. -/
theorem validate_eq_ok_iff : options.validate = .ok () ↔
    (Binary32.le 0 options.resignPercentage = true ∧
      Binary32.le options.resignPercentage (Binary32.ofNat maxResignPercentage) = true) ∧
    options.resignEarliestMove ≤ maxResignEarliestMove ∧
    options.minimumAllowedVisits ≤ maxMinimumAllowedVisits := by
  have hnone : options.validate = .ok () ↔ options.outOfRange? = none := by
    unfold validate
    cases options.outOfRange? <;> simp
  rw [hnone, ← Bool.and_eq_true]
  unfold outOfRange?
  simp only
  split
  · rename_i hpercentage
    rw [Bool.not_eq_true'] at hpercentage
    simp [hpercentage]
  · rename_i hpercentage
    rw [Bool.not_eq_true, Bool.not_eq_false'] at hpercentage
    split
    · simp; omega
    · split
      · simp; omega
      · rename_i hmove hvisits
        exact ⟨fun _ => ⟨hpercentage, Nat.le_of_not_lt hmove, Nat.le_of_not_lt hvisits⟩,
          fun _ => rfl⟩

/-- Options that a dictionary holds as they are written are read from it. -/
theorem ofDict_eq_ok (hwritten : ∀ entry ∈ options.toEntries, dict.find? entry.1 = some entry.2)
    (hvalid : options.validate = .ok ()) : ofDict dict = .ok options := by
  obtain ⟨⟨hlow, -⟩, hmove, hvisits⟩ := validate_eq_ok_iff.mp hvalid
  have hnumber := ((Binary32.le_iff _ _).mp hlow).2.1
  unfold toEntries at hwritten
  simp only [List.forall_mem_cons] at hwritten
  obtain ⟨hreuse, hpercentage, hstyle, hearliest, hminimum, hchess, -⟩ := hwritten
  have htruth (b : Bool) : truth? (trim (ofBool b).toList) = some b := by
    rw [trim_ofBool, truth?_ofBool]
  have hcount {n : Nat} (hn : n < countBound) :
      natural? countBound (trim (ofNat n).toList) = some n := by
    rw [trim_ofNat, natural?_toDigits hn]
  have hbound : maxResignEarliestMove < countBound ∧ maxMinimumAllowedVisits < countBound := by
    decide
  unfold ofDict
  simp only [OptionsDict.readOr_eq_ok hreuse (htruth _),
    OptionsDict.readOr_eq_ok hpercentage (Binary32.ofText?_ofSingle hnumber),
    OptionsDict.readOr_eq_ok hstyle (htruth _),
    OptionsDict.readOr_eq_ok hearliest (hcount (by omega)),
    OptionsDict.readOr_eq_ok hminimum (hcount (by omega)),
    OptionsDict.readOr_eq_ok hchess (htruth _), bind, Except.bind, hvalid]
  rfl

/-- What is read has passed the check. -/
theorem validate_of_ofDict (h : ofDict dict = .ok options) : options.validate = .ok () := by
  unfold ofDict at h
  obtain ⟨_, -, h⟩ := exists_of_bind_eq_ok h
  obtain ⟨_, -, h⟩ := exists_of_bind_eq_ok h
  obtain ⟨_, -, h⟩ := exists_of_bind_eq_ok h
  obtain ⟨_, -, h⟩ := exists_of_bind_eq_ok h
  obtain ⟨_, -, h⟩ := exists_of_bind_eq_ok h
  obtain ⟨_, -, h⟩ := exists_of_bind_eq_ok h
  obtain ⟨_, hvalid, h⟩ := exists_of_bind_eq_ok h
  cases h
  exact hvalid

end SelfPlayOptions

namespace ConfigValue

variable {value : Toml.Value}

/-- What is under a key was read there, or is what it is by default. -/
theorem eq_default_or_of_field {α : Type} {entries : List (String × Toml.Value)} {key : String}
    {read : Toml.Value → Except Error α} {default result : α}
    (h : field entries key read default = .ok result) :
    result = default ∨ ∃ value, read value = .ok result := by
  unfold field at h
  split at h
  · cases h
    exact .inl rfl
  · exact .inr ⟨_, h⟩

/-- However often a document sets a name, it is entered once. -/
theorem isAscending_of_texts {dict : OptionsDict} (h : texts value = .ok dict) :
    dict.IsAscending := by
  obtain ⟨entries, -, h⟩ := exists_of_bind_eq_ok h
  suffices hfold : ∀ start : OptionsDict, start.IsAscending →
      entries.foldlM (fun dict entry => (text entry.2).map (dict.set entry.1)) start = .ok dict →
      dict.IsAscending from hfold .empty OptionsDict.isAscending_empty h
  clear h
  induction entries with
  | nil =>
    intro start hstart hfold
    cases hfold
    exact hstart
  | cons entry rest ih =>
    intro start hstart hfold
    rw [List.foldlM_cons] at hfold
    obtain ⟨next, hnext, hfold⟩ := exists_of_bind_eq_ok hfold
    cases htext : text entry.2 with
    | error error =>
      rw [htext] at hnext
      cases hnext
    | ok written =>
      rw [htext] at hnext
      cases hnext
      exact ih _ (hstart.set entry.1 written) hfold

theorem isAscending_engineOptions {config : PlayerConfig} (h : player value = .ok config) :
    config.engineOptions.IsAscending := by
  obtain ⟨entries, -, h⟩ := exists_of_bind_eq_ok h
  obtain ⟨_, -, h⟩ := exists_of_bind_eq_ok h
  obtain ⟨_, -, h⟩ := exists_of_bind_eq_ok h
  obtain ⟨_, -, h⟩ := exists_of_bind_eq_ok h
  obtain ⟨engineOptions, hengine, h⟩ := exists_of_bind_eq_ok h
  cases h
  rcases eq_default_or_of_field hengine with rfl | ⟨_, htexts⟩
  · exact OptionsDict.isAscending_empty
  · exact isAscending_of_texts htexts

end ConfigValue

/-- Both sides of a configuration that was read have their options for the engine in order. -/
theorem SelfPlayConfig.isAscending_of_ofToml {text : String} {config : SelfPlayConfig}
    (h : SelfPlayConfig.ofToml text = .ok config) :
    config.white.engineOptions.IsAscending ∧ config.black.engineOptions.IsAscending := by
  have hside {entries : List (String × Toml.Value)} {key : String} {side : PlayerConfig}
      (hread : ConfigValue.field entries key ConfigValue.player .default = .ok side) :
      side.engineOptions.IsAscending := by
    rcases ConfigValue.eq_default_or_of_field hread with rfl | ⟨_, hplayer⟩
    · exact OptionsDict.isAscending_empty
    · exact ConfigValue.isAscending_engineOptions hplayer
  unfold SelfPlayConfig.ofToml at h
  split at h
  · cases h
  · obtain ⟨white, hwhite, h⟩ := exists_of_bind_eq_ok h
    obtain ⟨black, hblack, h⟩ := exists_of_bind_eq_ok h
    obtain ⟨_, -, h⟩ := exists_of_bind_eq_ok h
    obtain ⟨_, -, h⟩ := exists_of_bind_eq_ok h
    cases h
    exact ⟨hside hwhite, hside hblack⟩

namespace PlayerConfig

variable {ω M : Type}

/-- The three layers, from the top. -/
theorem find?_options_apply (config : PlayerConfig) (player : Player ω M)
    (hengine : config.engineOptions.IsAscending) (name : String) :
    (config.apply player).options.find? name =
      (config.engineOptions.find? name).or
        ((OptionsDict.find? ⟨config.selfPlay.toEntries⟩ name).or (player.options.find? name)) := by
  unfold apply SelfPlayOptions.writeTo
  simp only
  rw [OptionsDict.find?_setAll _ hengine.nodup,
    OptionsDict.find?_setAll _ config.selfPlay.nodup_toEntries]

/-- Applying a configuration loses and leaks nothing. An option for the search engine has its
configured text; an option of self-play that the engine's do not cover is as it is written; every
other name has the value that it had, or none if it had none. Of the rest of the player the limits
are replaced. If the engine's options cover none of self-play's, the player has the configured
options of self-play; and whatever options a player has, they have passed the check. -/
theorem apply_sets_configured (config : PlayerConfig) (player : Player ω M)
    (hvalid : config.selfPlay.validate = .ok ()) (hengine : config.engineOptions.IsAscending) :
    (∀ name text, config.engineOptions.find? name = some text →
      (config.apply player).options.find? name = some text) ∧
    (∀ entry ∈ config.selfPlay.toEntries, config.engineOptions.contains entry.1 = false →
      (config.apply player).options.find? entry.1 = some entry.2) ∧
    (∀ name, config.engineOptions.contains name = false → name ∉ SelfPlayOptions.names →
      (config.apply player).options.find? name = player.options.find? name) ∧
    (player.options.IsAscending → (config.apply player).options.IsAscending) ∧
    config.apply player =
      { player with options := (config.apply player).options, limits := config.limits } ∧
    ((∀ name ∈ SelfPlayOptions.names, config.engineOptions.contains name = false) →
      (config.apply player).selfPlayOptions = .ok config.selfPlay) ∧
    ∀ (other : Player ω M) options, other.selfPlayOptions = .ok options →
      options.validate = .ok () := by
  have hnone {name : String} (h : config.engineOptions.contains name = false) :
      config.engineOptions.find? name = none := by
    rwa [OptionsDict.contains, Option.isSome_eq_false_iff, Option.isNone_iff_eq_none] at h
  have hwritten : ∀ entry ∈ config.selfPlay.toEntries,
      config.engineOptions.contains entry.1 = false →
        (config.apply player).options.find? entry.1 = some entry.2 := by
    intro entry hentry huncovered
    have hfound := OptionsDict.find?_of_mem config.selfPlay.nodup_toEntries hentry
    rw [find?_options_apply config player hengine, hnone huncovered, hfound]
    rfl
  refine ⟨?_, hwritten, ?_, ?_, rfl, ?_, ?_⟩
  · intro name text hname
    rw [find?_options_apply config player hengine, hname]
    rfl
  · intro name huncovered hother
    rw [find?_options_apply config player hengine, hnone huncovered,
      OptionsDict.find?_eq_none_of_not_mem hother]
    rfl
  · intro hplayer
    exact (hplayer.setAll config.selfPlay.toEntries).setAll config.engineOptions.entries
  · intro huncovered
    refine SelfPlayOptions.ofDict_eq_ok (fun entry hentry => ?_) hvalid
    have hname : entry.1 ∈ SelfPlayOptions.names := List.mem_map_of_mem hentry
    exact hwritten entry hentry (huncovered entry.1 hname)
  · intro other options hoptions
    exact SelfPlayOptions.validate_of_ofDict hoptions

/-- An option that could not be read is written anew, the engine's own take the place of those
there were, and what nobody sets stays. -/
theorem tuned_player_configured :
    let config : PlayerConfig :=
      ⟨⟨true, ⟨0x41480000⟩, true, 20, 40, true⟩, ⟨some 800, none, none⟩, 2,
        ⟨[("cpuct", "2.5"), ("threads", "4")]⟩⟩
    let player : Player Unit TicTacToe.Square :=
      { Player.ofNetwork (TicTacToe.heuristicNetwork Unit) with
        options := ⟨[("cpuct", "1.0"), ("hash", "64"), ("reuse-tree", "perhaps")]⟩ }
    config.selfPlay.validate = .ok () ∧ config.engineOptions.IsAscending ∧
      (config.apply player).options.find? "cpuct" = some "2.5" ∧
      (config.apply player).options.find? "resign-percentage" = some "12.5" ∧
      (config.apply player).options.find? "hash" = some "64" ∧
      (config.apply player).options.find? "depth" = none ∧
      (config.apply player).options.IsAscending ∧
      (config.apply player).selfPlayOptions = .ok config.selfPlay := by
  intro config player
  have hvalid : config.selfPlay.validate = .ok () := rfl
  have hengine : config.engineOptions.IsAscending := by decide
  have hpercentage : ("resign-percentage", "12.5") ∈ config.selfPlay.toEntries := by decide +kernel
  have huncovered : ∀ name ∈ SelfPlayOptions.names,
      config.engineOptions.contains name = false := by decide
  obtain ⟨hcovering, hwritten, hother, hplayer, -, hread, -⟩ :=
    apply_sets_configured config player hvalid hengine
  have hhash : player.options.find? "hash" = some "64" := by decide
  have hdepth : player.options.find? "depth" = none := by decide
  have hcpuct := hcovering "cpuct" "2.5" (by decide)
  have htext := hwritten _ hpercentage (huncovered _ (by decide))
  refine ⟨hvalid, hengine, hcpuct, htext, ?_, ?_, hplayer (by decide), hread huncovered⟩
  · rw [hother "hash" (by decide) (by decide), hhash]
  · rw [hother "depth" (by decide) (by decide), hdepth]

end PlayerConfig

end SelfPlay
