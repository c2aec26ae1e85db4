import WordHart.Image.Recording
import WordHart.Main
import WordHart.Proofs.BinaryImages
import WordHart.Proofs.Calls
import WordHart.Proofs.Constants
import WordHart.Proofs.Drivers
import WordHart.Proofs.ForwardJumps
import WordHart.Proofs.HiddenZero
import WordHart.Proofs.InlineWords
import WordHart.Proofs.Leftovers
import WordHart.Proofs.Reset
import WordHart.Proofs.Sessions
import WordHart.Proofs.Tampering
import WordHart.Proofs.TextErrors
import WordHart.Proofs.TextLines
import WordHart.Proofs.Truncation
