import Mentions.FileTree
import Mentions.Main
import Mentions.Proofs.Command.Load
import Mentions.Proofs.Command.Logging
import Mentions.Proofs.Command.Output
import Mentions.Proofs.FileTree.Alike
import Mentions.Proofs.FileTree.Enclosing
import Mentions.Proofs.Json.Opening
import Mentions.Proofs.Search.Accuracy
import Mentions.Proofs.Search.Arithmetic
import Mentions.Proofs.Search.ArrayLayers
import Mentions.Proofs.Search.CaseModes
import Mentions.Proofs.Search.Nameless
import Mentions.Proofs.Search.Origin
import Mentions.Proofs.Search.Recorded
import Mentions.Proofs.Search.Resources
import Mentions.Proofs.Search.Separation
import Mentions.Proofs.Search.Slack
import Mentions.Proofs.Search.Unrecorded
import Mentions.Proofs.Search.WholeName
import Mentions.Proofs.Search.Window
import Mentions.Proofs.Settings.Nearest
import Mentions.Proofs.Settings.Sections
import Mentions.Proofs.Text.Places
import Mentions.Proofs.Text.Position
import Mentions.Proofs.Text.Slice
import Mentions.Proofs.Toml.Apart
import Mentions.Proofs.Visit.Dump
import Mentions.Proofs.Visit.Replay
