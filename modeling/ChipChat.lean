import ChipChat.LabelledSystem
import ChipChat.ThreadDelivery
import ChipChat.SendFailures
import ChipChat.SummaryAgreement
import ChipChat.RegistrationOutcomes
import ChipChat.RegistrationSecrecy
import ChipChat.ChatView
import ChipChat.SessionIsolation
import ChipChat.ConversationQuery
import ChipChat.HudTruth
import ChipChat.PathComponents
import ChipChat.ReplayedPrefixes
import ChipChat.CoexistingListeners
import ChipChat.RowOrder
import ChipChat.SentDrafts
import ChipChat.UserList
import ChipChat.UserSearch
import ChipChat.SearchCase
import ChipChat.ChatPartners
import ChipChat.SelfChat
import ChipChat.MirroredChats
import ChipChat.SummaryCausality
import ChipChat.PartnerRows
import ChipChat.ScreenSessions
import ChipChat.ReusedCells
import ChipChat.RegisteredProfiles
import ChipChat.SignUps
import ChipChat.ListenedChats
import ChipChat.LocalViews
import ChipChat.DrainedWrites
import ChipChat.StoredQueues
